import ScheduledDb.Store.Fsm

/-!
# Status commands

What the state machine does with the three commands about a job's execution state: which of them it
accepts, and what the job's status is afterwards.  A job without execution state counts as
`pending`.
-/

namespace ScheduledDb

open JobExecutionState Finmap Command Option

/-- The statuses that no transition leaves. -/
def JobStatus.isOver : JobStatus → Bool
  | .completed => true
  | .cancelled => true
  | _ => false

/-- The job is through with its last attempt, or will have none. -/
def JobStatus.Finished (status : JobStatus) : Prop :=
  status = .completed ∨ status = .failed ∨ status = .cancelled

instance (status : JobStatus) : Decidable status.Finished := inferInstanceAs (Decidable (_ ∨ _))

namespace Command

/-- The job whose execution state a command is about. -/
def subject (cmd : Command) : Option String :=
  match cmd.type with
  | .createJob => cmd.job.map Job.id
  | .deleteJob => some cmd.id
  | .updateJobStatus => cmd.statusCommand.map StatusCommand.jobID
  | .recordAttempt => cmd.statusCommand.map StatusCommand.jobID
  | .pruneAttempts => cmd.statusCommand.map StatusCommand.jobID
  | _ => none

/-- A command that creates the job anew or deletes it. -/
def Resets (jobID : String) (cmd : Command) : Prop :=
  (cmd.type = .createJob ∨ cmd.type = .deleteJob) ∧ cmd.subject = some jobID

end Command

namespace FSM

/-- The status a transition of the job starts from. -/
def statusOf (f : FSM) (jobID : String) : JobStatus :=
  ((f.executionStates.lookup jobID).map JobExecutionState.status).getD .pending

variable {state : JobExecutionState} {jobID id : String} {f : FSM} {cmd : Command}
  {sc : StatusCommand} {faults : ColdFaults}

lemma statusOf_of_lookup (h : f.executionStates.lookup jobID = some state) :
    f.statusOf jobID = state.status := by
  simp [statusOf, h]

lemma statusOf_of_none (h : f.executionStates.lookup jobID = none) :
    f.statusOf jobID = .pending := by
  simp [statusOf, h]

/-- How often an attempt at the job was started. -/
def attemptsOf (f : FSM) (jobID : String) : ℤ :=
  ((f.executionStates.lookup jobID).map JobExecutionState.attemptCount).getD 0

/-- The log entry of a status command. -/
def statusUpdate (sc : StatusCommand) : Command :=
  { type := .updateJobStatus, statusCommand := some sc }

/-- The command that puts an attempt on record. -/
def attemptRecord (sc : StatusCommand) : Command :=
  { type := .recordAttempt, statusCommand := some sc }

/-- The command that replaces the attempts on record. -/
def attemptPrune (sc : StatusCommand) (kept : List ExecutionAttempt) : Command :=
  { type := .pruneAttempts, statusCommand := some sc, attempts := kept }

/-- Of the log entry of a status update only the status command matters. -/
lemma apply_eq_statusUpdate (htype : cmd.type = .updateJobStatus)
    (hsc : cmd.statusCommand = some sc) (faults : ColdFaults) (f : FSM) :
    f.apply faults cmd = f.apply faults (statusUpdate sc) := by
  simp only [apply, applyCommandInternal, wire, htype, hsc, statusUpdate]

@[simp] lemma update_status (state : JobExecutionState) (sc : StatusCommand) :
    (state.update sc).status = sc.status := by
  unfold update
  cases sc.status <;> rfl

lemma update_completedAt (state : JobExecutionState) (sc : StatusCommand) :
    (state.update sc).completedAt
      = if sc.status.Finished then sc.timestamp else state.completedAt := by
  cases hstatus : sc.status <;> simp [update, hstatus, JobStatus.Finished]

@[simp] lemma update_attempts (state : JobExecutionState) (sc : StatusCommand) :
    (state.update sc).attempts = state.attempts := by
  unfold update
  cases sc.status <;> rfl

lemma update_attemptCount (state : JobExecutionState) (h : sc.status ≠ .inProgress) :
    (state.update sc).attemptCount = state.attemptCount := by
  unfold update
  cases hstatus : sc.status with
  | inProgress => exact absurd hstatus h
  | _ => rfl

/-- **When a status update is accepted.** -/
lemma statusUpdate_accepted_iff (faults : ColdFaults) (f : FSM) (sc : StatusCommand) :
    (f.apply faults (statusUpdate sc)).2.isError = false
      ↔ validateStateTransition (f.statusOf sc.jobID) sc.status = none := by
  cases hstate : f.executionStates.lookup sc.jobID with
  | none =>
    rw [statusOf_of_none hstate]
    cases hvalid : validateStateTransition .pending sc.status with
    | none | some e =>
      simp [apply, statusUpdate, wire, applyCommandInternal, applyStatusUpdate, hstate,
        transition, newExecutionState, hvalid, Response.isError]
  | some state =>
    rw [statusOf_of_lookup hstate]
    cases hvalid : validateStateTransition state.status sc.status with
    | none | some e =>
      simp [apply, statusUpdate, wire, applyCommandInternal, applyStatusUpdate, hstate,
        transition, hvalid, Response.isError]

lemma effect_statusUpdate (faults : ColdFaults) (f : FSM) (sc : StatusCommand) :
    (f.apply faults (statusUpdate sc)).1 = (f.statusEffect sc).act faults f := by
  rw [apply_fst]
  rfl

lemma effect_attemptRecord (faults : ColdFaults) (f : FSM) (sc : StatusCommand) :
    (f.apply faults (attemptRecord sc)).1
      = (f.attemptsEffect sc fun state =>
          sc.attempt.map fun a => state.attempts ++ [a]).act faults f := by
  rw [apply_fst]
  rfl

lemma effect_attemptPrune (faults : ColdFaults) (f : FSM) (sc : StatusCommand)
    (kept : List ExecutionAttempt) :
    (f.apply faults (attemptPrune sc kept)).1
      = (f.attemptsEffect sc fun _ => some kept).act faults f := by
  rw [apply_fst]
  rfl

/-- The execution state that a status update starts from. -/
def stateFor (f : FSM) (sc : StatusCommand) : JobExecutionState :=
  (f.executionStates.lookup sc.jobID).getD (newExecutionState sc.jobID sc.timestamp)

lemma stateFor_status (f : FSM) (sc : StatusCommand) :
    (f.stateFor sc).status = f.statusOf sc.jobID := by
  cases hstate : f.executionStates.lookup sc.jobID with
  | none => simp [stateFor, statusOf, hstate, newExecutionState]
  | some state => simp [stateFor, statusOf, hstate]

lemma stateFor_attemptCount (f : FSM) (sc : StatusCommand) :
    (f.stateFor sc).attemptCount = f.attemptsOf sc.jobID := by
  cases hstate : f.executionStates.lookup sc.jobID with
  | none => simp [stateFor, attemptsOf, hstate, newExecutionState]
  | some state => simp [stateFor, attemptsOf, hstate]

/-- The execution states after a status update. -/
lemma lookup_statusUpdate (faults : ColdFaults) (f : FSM) (sc : StatusCommand) (jobID : String) :
    (f.apply faults (statusUpdate sc)).1.executionStates.lookup jobID
      = if jobID = sc.jobID then
          some (if validateStateTransition (f.statusOf sc.jobID) sc.status = none
            then (f.stateFor sc).update sc else f.stateFor sc)
        else f.executionStates.lookup jobID := by
  rw [effect_statusUpdate, statusEffect, stateFor]
  cases hstate : f.executionStates.lookup sc.jobID with
  | none =>
    rw [statusOf_of_none hstate]
    by_cases hvalid : validateStateTransition .pending sc.status = none
    · simp [hvalid, Effect.act, lookup_insert_ite]
    · simp [hvalid, Effect.act, lookup_insert_ite]
  | some state =>
    rw [statusOf_of_lookup hstate]
    by_cases hvalid : validateStateTransition state.status sc.status = none
    · simp [hvalid, Effect.act, lookup_insert_ite]
    · by_cases hid : jobID = sc.jobID
      · subst hid
        simp [hvalid, Effect.act, hstate]
      · simp [hvalid, Effect.act, hid]

/-- The job's status after a status update: the new one if it was accepted, else the old one. -/
lemma statusOf_statusUpdate (faults : ColdFaults) (f : FSM) (sc : StatusCommand) (jobID : String) :
    (f.apply faults (statusUpdate sc)).1.statusOf jobID
      = if jobID = sc.jobID ∧ validateStateTransition (f.statusOf sc.jobID) sc.status = none
        then sc.status else f.statusOf jobID := by
  rw [statusOf, lookup_statusUpdate]
  by_cases hid : jobID = sc.jobID
  · subst hid
    by_cases hvalid : validateStateTransition (f.statusOf sc.jobID) sc.status = none
    · simp [hvalid]
    · simp [hvalid, stateFor_status]
  · simp [hid, statusOf]

/-- Only an update to `in_progress` counts as an attempt. -/
lemma attemptsOf_statusUpdate (faults : ColdFaults) (f : FSM) (hstatus : sc.status ≠ .inProgress)
    (jobID : String) :
    (f.apply faults (statusUpdate sc)).1.attemptsOf jobID = f.attemptsOf jobID := by
  rw [attemptsOf, lookup_statusUpdate]
  by_cases hid : jobID = sc.jobID
  · subst hid
    by_cases hvalid : validateStateTransition (f.statusOf sc.jobID) sc.status = none
    · simp [hvalid, update_attemptCount _ hstatus, stateFor_attemptCount]
    · simp [hvalid, stateFor_attemptCount]
  · simp [hid, attemptsOf]

/-- An update to `in_progress` that is accepted does. -/
lemma attemptsOf_statusUpdate_inProgress (faults : ColdFaults) (f : FSM)
    (hstatus : sc.status = .inProgress)
    (hvalid : validateStateTransition (f.statusOf sc.jobID) sc.status = none) :
    (f.apply faults (statusUpdate sc)).1.attemptsOf sc.jobID = f.attemptsOf sc.jobID + 1 := by
  rw [attemptsOf, lookup_statusUpdate, if_pos rfl, if_pos hvalid, ← stateFor_attemptCount,
    update, hstatus]
  rfl

/-- After a status update the job has an execution state. -/
lemma isSome_lookup_statusUpdate (faults : ColdFaults) (f : FSM) (sc : StatusCommand) :
    ((f.apply faults (statusUpdate sc)).1.executionStates.lookup sc.jobID).isSome = true := by
  simp [lookup_statusUpdate]

lemma statusUpdate_leavesJobs (sc : StatusCommand) : (statusUpdate sc).LeavesJobs := by
  simp [LeavesJobs, statusUpdate]

/-- **When an attempt is recorded.** -/
lemma attemptRecord_accepted_iff (faults : ColdFaults) (f : FSM) (sc : StatusCommand) :
    (f.apply faults (attemptRecord sc)).2.isError = false
      ↔ (f.executionStates.lookup sc.jobID).isSome = true ∧ sc.attempt.isSome = true := by
  cases hstate : f.executionStates.lookup sc.jobID with
  | none =>
    simp [apply, attemptRecord, wire, applyCommandInternal, applyRecordAttempt, hstate,
      Response.isError]
  | some state =>
    cases hattempt : sc.attempt with
    | none | some attempt =>
      simp [apply, attemptRecord, wire, applyCommandInternal, applyRecordAttempt,
        hstate, hattempt, Response.isError]

/-- Recording an attempt changes nothing but the list of attempts. -/
lemma lookup_attemptRecord {β : Type} (faults : ColdFaults) (f : FSM) (sc : StatusCommand)
    (jobID : String) (g : JobExecutionState → β)
    (hg : ∀ (state : JobExecutionState) (attempts : List ExecutionAttempt),
      g { state with attempts := attempts } = g state) :
    ((f.apply faults (attemptRecord sc)).1.executionStates.lookup jobID).map g
      = (f.executionStates.lookup jobID).map g := by
  rw [effect_attemptRecord, attemptsEffect]
  cases hstate : f.executionStates.lookup sc.jobID with
  | none => rfl
  | some state =>
    cases hattempt : sc.attempt with
    | none => rfl
    | some attempt =>
      by_cases hid : jobID = sc.jobID
      · subst hid
        simp [Effect.act, hstate, hg]
      · simp [Effect.act, hid]

lemma statusOf_attemptRecord (faults : ColdFaults) (f : FSM) (sc : StatusCommand) (jobID : String) :
    (f.apply faults (attemptRecord sc)).1.statusOf jobID = f.statusOf jobID := by
  rw [statusOf, statusOf, lookup_attemptRecord _ _ _ _ _ fun _ _ => rfl]

lemma attemptsOf_attemptRecord (faults : ColdFaults) (f : FSM) (sc : StatusCommand)
    (jobID : String) :
    (f.apply faults (attemptRecord sc)).1.attemptsOf jobID = f.attemptsOf jobID := by
  rw [attemptsOf, attemptsOf, lookup_attemptRecord _ _ _ _ _ fun _ _ => rfl]

lemma attemptRecord_leavesJobs (sc : StatusCommand) : (attemptRecord sc).LeavesJobs := by
  simp [LeavesJobs, attemptRecord]

/-- How a command writes an execution state: a status update, one more attempt, or other
attempts. -/
inductive WritesState (f : FSM) (cmd : Command) (sc : StatusCommand) :
    JobExecutionState → Prop where
  | update (type : cmd.type = .updateJobStatus) :
      WritesState f cmd sc (if validateStateTransition (f.statusOf sc.jobID) sc.status = none
        then (f.stateFor sc).update sc else f.stateFor sc)
  | record {old : JobExecutionState} {attempt : ExecutionAttempt} (type : cmd.type = .recordAttempt)
      (found : f.executionStates.lookup sc.jobID = some old) (arg : sc.attempt = some attempt) :
      WritesState f cmd sc { old with attempts := old.attempts ++ [attempt] }
  | prune {old : JobExecutionState} (type : cmd.type = .pruneAttempts)
      (found : f.executionStates.lookup sc.jobID = some old) :
      WritesState f cmd sc { old with attempts := cmd.attempts }

lemma putState_of_attemptsEffect {attempts : JobExecutionState → Option (List ExecutionAttempt)}
    (h : f.attemptsEffect sc attempts = .putState id state) :
    sc.jobID = id ∧ ∃ old kept, f.executionStates.lookup sc.jobID = some old ∧
      attempts old = some kept ∧ state = { old with attempts := kept } := by
  unfold attemptsEffect at h
  split at h
  · cases h
  · next old hold =>
      split at h
      · cases h
      · next kept hkept =>
          cases h
          exact ⟨rfl, old, kept, hold, hkept, rfl⟩

/-- **Inversion of a write to an execution state.** -/
theorem putState_inversion (h : f.effect faults cmd = .putState id state) :
    ∃ sc, cmd.statusCommand = some sc ∧ sc.jobID = id ∧ WritesState f cmd sc state := by
  cases htype : cmd.type with
  | updateJobStatus =>
    cases hcmd : cmd.statusCommand with
    | none => simp [effect, htype, hcmd] at h
    | some sc =>
      have hwrite : WritesState f cmd sc
          (if validateStateTransition (f.statusOf sc.jobID) sc.status = none
            then (f.stateFor sc).update sc else f.stateFor sc) := .update htype
      simp only [effect, htype, hcmd, map_some, getD_some, statusEffect] at h
      refine ⟨sc, rfl, ?_⟩
      split at h
      · next old hold =>
          split_ifs at h with hvalid
          cases h
          refine ⟨rfl, ?_⟩
          simpa [stateFor, statusOf, hold, hvalid] using hwrite
      · next hnone =>
          split_ifs at h with hvalid
          · cases h
            refine ⟨rfl, ?_⟩
            simpa [stateFor, statusOf, hnone, hvalid] using hwrite
          · cases h
            refine ⟨rfl, ?_⟩
            simpa [stateFor, statusOf, hnone, hvalid] using hwrite
  | recordAttempt =>
    cases hcmd : cmd.statusCommand with
    | none => simp [effect, htype, hcmd] at h
    | some sc =>
      simp only [effect, htype, hcmd, map_some, getD_some] at h
      obtain ⟨rfl, old, kept, hold, hkept, rfl⟩ := putState_of_attemptsEffect h
      obtain ⟨attempt, harg, rfl⟩ := map_eq_some_iff.mp hkept
      exact ⟨sc, rfl, rfl, .record htype hold harg⟩
  | pruneAttempts =>
    cases hcmd : cmd.statusCommand with
    | none => simp [effect, htype, hcmd] at h
    | some sc =>
      simp only [effect, htype, hcmd, map_some, getD_some] at h
      obtain ⟨rfl, old, kept, hold, hkept, rfl⟩ := putState_of_attemptsEffect h
      obtain rfl := some.inj hkept
      exact ⟨sc, rfl, rfl, .prune htype hold⟩
  | createJob => cases hjob : cmd.job <;> simp [effect, htype, hjob] at h
  | deleteJob =>
    simp only [effect, htype] at h
    split_ifs at h
  | createSlot => cases hslot : cmd.slot <;> simp [effect, htype, hslot] at h
  | deleteSlot =>
    simp only [effect, htype, keyEffect] at h
    split_ifs at h
    split at h <;> cases h
  | archiveSlot =>
    simp only [effect, htype] at h
    split_ifs at h
    cases hslot : cmd.coldSlot <;> simp [hslot] at h
  | unarchiveSlot =>
    simp only [effect, htype, keyEffect] at h
    split_ifs at h
    split at h <;> cases h
  | updateMemoryUsage | updateJobCount | other text => simp [effect, htype] at h

/-- A status update, or other attempts. -/
lemma putState_cases (h : f.effect faults cmd = .putState id state) :
    (∃ sc, cmd.type = .updateJobStatus ∧ cmd.statusCommand = some sc ∧ sc.jobID = id ∧
      state = if validateStateTransition (f.statusOf id) sc.status = none
        then (f.stateFor sc).update sc else f.stateFor sc) ∨
    (cmd.type ≠ .updateJobStatus ∧ ∃ old kept, f.executionStates.lookup id = some old ∧
      state = { old with attempts := kept }) := by
  obtain ⟨sc, hcmd, rfl, hwrite⟩ := putState_inversion h
  cases hwrite with
  | update type => exact Or.inl ⟨sc, type, hcmd, rfl, rfl⟩
  | record type found arg =>
    exact Or.inr ⟨by simp [type], _, _, found, rfl⟩
  | prune type found => exact Or.inr ⟨by simp [type], _, _, found, rfl⟩

/-- A command that writes an execution state keeps the job's status or makes an allowed
transition. -/
lemma status_of_putState (h : f.effect faults cmd = .putState id state) :
    state.status = f.statusOf id ∨ validateStateTransition (f.statusOf id) state.status = none := by
  rcases putState_cases h with ⟨sc, _, _, rfl, rfl⟩ | ⟨_, old, kept, hold, rfl⟩
  · split_ifs with hvalid
    · exact Or.inr (by rw [update_status]; exact hvalid)
    · exact Or.inl (f.stateFor_status sc)
  · exact Or.inl (statusOf_of_lookup hold).symm

/-- No command that writes an execution state takes a job out of a terminal status. -/
lemma status_of_putState_of_isOver (h : f.effect faults cmd = .putState id state)
    (hover : (f.statusOf id).isOver = true) : state.status = f.statusOf id := by
  rcases status_of_putState h with hs | hs
  · exact hs
  · cases hstatus : f.statusOf id with
    | completed | cancelled => simp [hstatus, validateStateTransition, validTransitions] at hs
    | _ => simp [hstatus, JobStatus.isOver] at hover

section Subject

variable {faults : ColdFaults} {f : FSM} {cmd : Command}

lemma subject_of_putJob {job : Job} (h : f.effect faults cmd.wire = .putJob job) :
    cmd.type = .createJob ∧ cmd.subject = some job.id := by
  have hof := f.effectOf faults cmd.wire
  rw [h] at hof
  cases hof with
  | putJob type arg =>
    have htype : cmd.type = .createJob := type
    obtain ⟨job', hjob', rfl⟩ := map_eq_some_iff.mp arg
    exact ⟨htype, by simp [subject, htype, hjob', Job.wire]⟩

lemma subject_of_dropJob {id : String} (h : f.effect faults cmd.wire = .dropJob id) :
    cmd.type = .deleteJob ∧ cmd.subject = some id := by
  have hof := f.effectOf faults cmd.wire
  rw [h] at hof
  cases hof with
  | dropJob type arg =>
    have htype : cmd.type = .deleteJob := type
    exact ⟨htype, by simp [subject, htype, wire]⟩

lemma subject_of_putState {id : String} {state : JobExecutionState}
    (h : f.effect faults cmd.wire = .putState id state) : cmd.subject = some id := by
  obtain ⟨sc, hsc, rfl, hwrite⟩ := putState_inversion h
  have hsc' : cmd.statusCommand = some sc := hsc
  cases hwrite with
  | update type =>
    have htype : cmd.type = .updateJobStatus := type
    simp [subject, htype, hsc']
  | record type =>
    have htype : cmd.type = .recordAttempt := type
    simp [subject, htype, hsc']
  | prune type =>
    have htype : cmd.type = .pruneAttempts := type
    simp [subject, htype, hsc']

/-- **Only commands about a job touch its execution state.** -/
lemma lookup_apply_of_subject_ne {jobID : String} (h : cmd.subject ≠ some jobID)
    (faults : ColdFaults) (f : FSM) :
    (f.apply faults cmd).1.executionStates.lookup jobID = f.executionStates.lookup jobID := by
  have hne : ∀ {id : String}, cmd.subject = some id → jobID ≠ id := by
    rintro id hid rfl
    exact h hid
  rw [apply_fst]
  cases heffect : f.effect faults cmd.wire with
  | putJob job => simp [Effect.act, hne (subject_of_putJob heffect).2]
  | dropJob id => simp [Effect.act, hne (subject_of_dropJob heffect).2]
  | putState id state => simp [Effect.act, hne (subject_of_putState heffect)]
  | _ => rfl

/-- A job that is completed or cancelled stays so, until it is created anew or deleted. -/
lemma statusOf_apply_of_isOver {jobID : String} (h : (f.statusOf jobID).isOver = true)
    (hcmd : ¬ cmd.Resets jobID) (faults : ColdFaults) :
    (f.apply faults cmd).1.statusOf jobID = f.statusOf jobID := by
  rw [apply_fst]
  cases heffect : f.effect faults cmd.wire with
  | putJob job =>
    obtain ⟨htype, hsubject⟩ := subject_of_putJob heffect
    have hne : jobID ≠ job.id := by
      rintro rfl
      exact hcmd ⟨Or.inl htype, hsubject⟩
    simp [Effect.act, statusOf, hne]
  | dropJob id =>
    obtain ⟨htype, hsubject⟩ := subject_of_dropJob heffect
    have hne : jobID ≠ id := by
      rintro rfl
      exact hcmd ⟨Or.inr htype, hsubject⟩
    simp [Effect.act, statusOf, hne]
  | putState id state =>
    by_cases hid : jobID = id
    · subst hid
      have hnew : ((Effect.putState jobID state).act faults f).statusOf jobID = state.status := by
        simp [Effect.act, statusOf]
      rw [hnew]
      exact status_of_putState_of_isOver heffect h
    · simp [Effect.act, statusOf, hid]
  | _ => rfl

end Subject

@[simp] lemma update_jobID (state : JobExecutionState) (sc : StatusCommand) :
    (state.update sc).jobID = state.jobID := by
  unfold update
  cases sc.status <;> rfl

lemma Filed.stateFor (h : f.Filed) (sc : StatusCommand) : (f.stateFor sc).jobID = sc.jobID := by
  cases hstate : f.executionStates.lookup sc.jobID with
  | none => simp [FSM.stateFor, hstate, newExecutionState]
  | some state =>
    simp only [FSM.stateFor, hstate, getD_some]
    exact h.executionStates _ state hstate

/-- Removing a cold slot leaves the others filed. -/
lemma Filed.coldSlot_deleted (h : f.Filed) (faults : ColdFaults) (key : ℤ)
    (c : Finmap fun _ : ℤ => SlotData)
    (hc : (f.coldStore.map fun c => deleteColdSlot c faults key) = some c) (key' : ℤ)
    (slot : SlotData) (hslot : c.lookup key' = some slot) : slot.key = key' := by
  obtain ⟨c', hc', rfl⟩ := map_eq_some_iff.mp hc
  exact h.cold c' hc' key' slot (lookup_of_deleteColdSlot hslot)

/-- An execution state is written under the job's name. -/
lemma Filed.putState (h : f.Filed) (heffect : f.effect faults cmd = .putState id state) :
    state.jobID = id := by
  rcases putState_cases heffect with ⟨sc, _, _, rfl, rfl⟩ | ⟨_, old, kept, hold, rfl⟩
  · split_ifs
    · rw [update_jobID]
      exact h.stateFor sc
    · exact h.stateFor sc
  · exact h.executionStates id old hold

lemma Filed.act (h : f.Filed) (faults : ColdFaults) {effect : Effect}
    (hstate : ∀ id state, effect = .putState id state → state.jobID = id) :
    (effect.act faults f).Filed := by
  cases effect with
  | none => exact h
  | putJob job =>
    exact { h with
      jobs := named_insert h.jobs rfl
      executionStates := named_insert h.executionStates rfl }
  | dropJob id =>
    exact { h with
      jobs := named_erase h.jobs id
      executionStates := named_erase h.executionStates id }
  | putSlot slot => exact { h with slots := named_insert h.slots rfl }
  | dropSlot key =>
    exact { h with
      slots := named_erase h.slots key
      cold := h.coldSlot_deleted faults key }
  | archive slot =>
    refine { h with slots := named_erase h.slots slot.key, cold := fun c hc => ?_ }
    obtain ⟨c', hc', rfl⟩ := map_eq_some_iff.mp hc
    exact named_insert (h.cold c' hc') rfl
  | unarchive key =>
    refine { h with slots := ?_, cold := h.coldSlot_deleted faults key }
    simp only [Effect.act]
    cases hcold : f.coldStore.bind fun c => c.lookup key with
    | none => exact h.slots
    | some found =>
      obtain ⟨c, hc, hfound⟩ := bind_eq_some_iff.mp hcold
      exact named_insert h.slots (h.cold c hc key found hfound)
  | putState id state =>
    exact { h with
      executionStates := named_insert h.executionStates (hstate id state rfl) }
  | setMemoryUsage m => exact { h with }
  | setJobCount c => exact { h with }

/-- **Every command files what it stores under its own name.** -/
theorem Filed.apply (h : f.Filed) (faults : ColdFaults) (cmd : Command) :
    (f.apply faults cmd).1.Filed := by
  rw [apply_fst]
  exact h.act faults fun _ _ heffect => h.putState heffect

end FSM

end ScheduledDb
