import ScheduledDb.Store.Snapshot
import ScheduledDb.Store.Status

/-!
# Execution states over a whole log

What every log makes of the execution states, whoever issued its commands.

* A rejected command changes nothing, with one exception: a status update for a job without
  execution state creates one before it looks at the transition (`rejected_keeps_iff`).
* The fields of an execution state fit together in every state a log leads to
  (`consistent_of_log`).
-/

namespace ScheduledDb

namespace FSM

/-! ## Rejected commands -/

/-- A status update that cannot be accepted, for a job without execution state. -/
def CreatesInVain (f : FSM) (cmd : Command) : Prop :=
  cmd.type = .updateJobStatus ∧ ∃ sc, cmd.statusCommand = some sc ∧
    f.executionStates.lookup sc.jobID = none ∧ validateStateTransition .pending sc.status ≠ none

/-- When a status update is refused. -/
lemma isError_transition (f : FSM) (state : JobExecutionState) (sc : StatusCommand) :
    (f.transition state sc).2.isError = true ↔
      validateStateTransition state.status sc.status ≠ none := by
  cases hvalid : validateStateTransition state.status sc.status with
  | none | some e => simp [transition, hvalid, Response.isError]

/-- An error means no effect, with the one exception. -/
lemma effect_of_isError {faults : ColdFaults} {f : FSM} {cmd : Command}
    (h : (f.applyCommandInternal faults cmd).2.isError = true) :
    f.effect faults cmd = .none ∨ f.CreatesInVain cmd := by
  by_cases htype : cmd.type = .updateJobStatus
  · cases hcmd : cmd.statusCommand with
    | none => simp [effect, htype, hcmd]
    | some sc =>
      simp only [applyCommandInternal, htype, hcmd, applyStatusUpdate] at h
      cases hstate : f.executionStates.lookup sc.jobID with
      | none =>
        simp only [hstate, isError_transition] at h
        exact Or.inr ⟨htype, sc, hcmd, hstate, h⟩
      | some state =>
        simp only [hstate, isError_transition] at h
        simp [effect, htype, hcmd, statusEffect, hstate, h]
  · exact Or.inl ((performed_applyCommandInternal faults f htype).refused h)

/-- The exception: the update is rejected, and the job has an execution state. -/
lemma CreatesInVain.spec {f : FSM} {cmd : Command} (h : f.CreatesInVain cmd) (faults : ColdFaults) :
    (f.applyCommandInternal faults cmd).2.isError = true ∧ ∃ id,
      f.executionStates.lookup id = none ∧
      ((f.applyCommandInternal faults cmd).1.executionStates.lookup id).isSome = true := by
  obtain ⟨htype, sc, hcmd, hstate, hvalid⟩ := h
  constructor
  · simp only [applyCommandInternal, htype, hcmd, applyStatusUpdate, hstate, isError_transition]
    exact hvalid
  · refine ⟨sc.jobID, hstate, ?_⟩
    rw [applyCommandInternal_fst]
    simp [effect, htype, hcmd, statusEffect, hstate, hvalid, Effect.act]

/-- **A rejected command changes nothing**, exactly if it is no status update for a job without
execution state to a status that a pending job cannot get. -/
theorem rejected_keeps_iff (faults : ColdFaults) (f : FSM) (cmd : Command) :
    ((f.applyCommandInternal faults cmd).2.isError = true →
      (f.applyCommandInternal faults cmd).1.HoldsSame f) ↔
    ¬ f.CreatesInVain cmd := by
  constructor
  · intro hkeeps hvain
    obtain ⟨herror, id, hbefore, hafter⟩ := hvain.spec faults
    simp [(hkeeps herror).executionStates, hbefore] at hafter
  · intro hvain herror
    rcases effect_of_isError herror with heffect | hcreates
    · rw [applyCommandInternal_fst, heffect]
      exact ⟨rfl, rfl, rfl, rfl, rfl, rfl⟩
    · exact absurd hcreates hvain

/-- Completing a job that does not exist is refused, and leaves an execution state behind. -/
theorem rejected_update_creates :
    let cmd := statusUpdate { jobID := "a", status := .completed, timestamp := 1 }
    (newFSM.applyCommandInternal {} cmd).2
        = .error (.invalidTransition .pending .completed) ∧
      newFSM.executionStates.lookup "a" = none ∧
      (newFSM.applyCommandInternal {} cmd).1.executionStates.lookup "a"
        = some (newExecutionState "a" 1) := by
  decide

end FSM

/-! ## How the fields of an execution state fit together -/

/-- The transitions there are. -/
lemma transition_cases {source target : JobStatus}
    (h : validateStateTransition source target = none) :
    (target = .inProgress ∧ (source = .pending ∨ source = .timeout ∨ source = .failed)) ∨
    ((target = .completed ∨ target = .failed ∨ target = .timeout) ∧ source = .inProgress) ∨
    (target = .cancelled ∧ (source = .pending ∨ source = .inProgress)) := by
  cases source with
  | other text | completed | cancelled => simp [validateStateTransition, validTransitions] at h
  | _ =>
    simp only [validateStateTransition, validTransitions, ite_eq_left_iff, reduceCtorEq,
      List.mem_cons, List.not_mem_nil, or_false, imp_false, not_not] at h
    tauto

/-- An execution state after `grants` accepted updates to `in_progress`. -/
structure JobExecutionState.Consistent (state : JobExecutionState) (grants : ℕ) : Prop where
  known : state.status ∈
    [.pending, .inProgress, .completed, .failed, .cancelled, .timeout]
  executingNodeID : state.executingNodeID ≠ "" ↔ state.status = .inProgress
  attemptCount : state.attemptCount = grants
  firstAttemptAt : state.firstAttemptAt ≠ 0 ↔ 0 < state.attemptCount
  pending : state.status = .pending → state.attemptCount = 0
  unattempted : state.attemptCount = 0 → state.status = .pending ∨ state.status = .cancelled
  cancelledAt : state.cancelledAt ≠ 0 ↔ state.status = .cancelled

namespace JobExecutionState.Consistent

variable {state : JobExecutionState} {grants : ℕ} {sc : StatusCommand}

lemma new (jobID : String) (createdAt : ℤ) : (newExecutionState jobID createdAt).Consistent 0 where
  known := by simp [newExecutionState]
  executingNodeID := by simp [newExecutionState]
  attemptCount := rfl
  firstAttemptAt := by simp [newExecutionState]
  pending := fun _ => rfl
  unattempted := fun _ => Or.inl rfl
  cancelledAt := by simp [newExecutionState]

/-- An accepted update, by what it is an update to. -/
lemma update (h : state.Consistent grants)
    (hvalid : validateStateTransition state.status sc.status = none)
    (htime : 0 < sc.timestamp) (hnode : sc.status = .inProgress → sc.nodeID ≠ "") :
    (state.update sc).Consistent (grants + if sc.status = .inProgress then 1 else 0) := by
  obtain ⟨_, hexec, hcount, hfirst, hpending, hnone, hcancel⟩ := h
  rcases transition_cases hvalid with ⟨htarget, hsource⟩ | ⟨htarget, hsource⟩ | ⟨htarget, hsource⟩
  · -- a new attempt
    have hnode := hnode htarget
    have hcancelled : state.cancelledAt = 0 := by
      by_contra hne
      rw [hcancel.mp hne] at hsource
      simp at hsource
    rw [htarget] at hvalid ⊢
    refine ⟨?_, ?_, ?_, ?_, ?_, ?_, ?_⟩
    · simp [JobExecutionState.update, htarget]
    · simpa [JobExecutionState.update, htarget] using hnode
    · simp [JobExecutionState.update, htarget, hcount]
    · simp only [JobExecutionState.update, htarget]
      split_ifs with hzero
      · omega
      · omega
    · simp [JobExecutionState.update, htarget]
    · simp only [JobExecutionState.update, htarget]
      omega
    · simp [JobExecutionState.update, htarget, hcancelled]
  · -- the end of an attempt
    have hpos : 0 < state.attemptCount := by
      have hne : state.attemptCount ≠ 0 := by
        intro hzero
        have := hnone hzero
        simp [hsource] at this
      omega
    have hcancelled : state.cancelledAt = 0 := by
      by_contra hne
      simp [hsource] at hcancel
      exact hne hcancel
    have hfirst' : state.firstAttemptAt ≠ 0 := hfirst.mpr hpos
    rcases htarget with htarget | htarget | htarget <;>
      exact
        { known := by simp [JobExecutionState.update, htarget]
          executingNodeID := by simp [JobExecutionState.update, htarget]
          attemptCount := by simp [JobExecutionState.update, htarget, hcount]
          firstAttemptAt := by simp [JobExecutionState.update, htarget, hfirst', hpos]
          pending := by simp [JobExecutionState.update, htarget]
          unattempted := by
            simp only [JobExecutionState.update, htarget]
            omega
          cancelledAt := by simp [JobExecutionState.update, htarget, hcancelled] }
  · -- a cancellation
    exact
      { known := by simp [JobExecutionState.update, htarget]
        executingNodeID := by simp [JobExecutionState.update, htarget]
        attemptCount := by simp [JobExecutionState.update, htarget, hcount]
        firstAttemptAt := by simpa [JobExecutionState.update, htarget] using hfirst
        pending := by simp [JobExecutionState.update, htarget]
        unattempted := by simp [JobExecutionState.update, htarget]
        cancelledAt := by simp [JobExecutionState.update, htarget, htime.ne'] }

end JobExecutionState.Consistent

/-! ## Along a log -/

/-- Status updates are stamped with a positive time, and a node marks a job as in progress under
its name. -/
def Command.Stamped (cmd : Command) : Prop :=
  cmd.type = .updateJobStatus → ∀ sc ∈ cmd.statusCommand,
    0 < sc.timestamp ∧ (sc.status = .inProgress → sc.nodeID ≠ "")

instance (cmd : Command) : Decidable cmd.Stamped := inferInstanceAs (Decidable (_ → _))

namespace FSM

/-- The command creates an execution state for the job. -/
def createsState (f : FSM) (cmd : Command) (id : String) : Bool :=
  match cmd.type with
  | .createJob => cmd.job.any fun job => job.id = id
  | .updateJobStatus =>
    cmd.statusCommand.any fun sc =>
      sc.jobID = id ∧ (f.executionStates.lookup id).isNone = true
  | _ => false

/-- The update of the job that the command is, if it is one and accepted. -/
def acceptedUpdate (faults : ColdFaults) (f : FSM) (cmd : Command) (id : String) :
    Option StatusCommand :=
  match cmd.type with
  | .updateJobStatus =>
    match cmd.statusCommand with
    | some sc => if sc.jobID = id ∧ (f.apply faults cmd).2.isError = false then some sc else none
    | none => none
  | _ => none

lemma acceptedUpdate_of_update (faults : ColdFaults) (f : FSM) {cmd : Command} {sc : StatusCommand}
    (htype : cmd.type = .updateJobStatus) (hsc : cmd.statusCommand = some sc) (id : String) :
    f.acceptedUpdate faults cmd id
      = if sc.jobID = id ∧ validateStateTransition (f.statusOf sc.jobID) sc.status = none
        then some sc else none := by
  simp only [acceptedUpdate, htype, hsc, apply_eq_statusUpdate htype hsc,
    statusUpdate_accepted_iff]

lemma acceptedUpdate_of_not_update (faults : ColdFaults) (f : FSM) {cmd : Command}
    (htype : cmd.type ≠ .updateJobStatus) (id : String) :
    f.acceptedUpdate faults cmd id = none := by
  unfold acceptedUpdate
  split
  · next hupdate => exact absurd hupdate htype
  · rfl

/-- Status updates apart, an execution state is created only with its job. -/
lemma createsState_of_not_putJob (faults : ColdFaults) {f : FSM} {cmd : Command}
    (hupdates : cmd.type ≠ .updateJobStatus) (hno : ∀ job, f.effect faults cmd.wire ≠ .putJob job)
    (id : String) : f.createsState cmd id = false := by
  unfold createsState
  split
  · next htype =>
      cases hjob : cmd.job with
      | none => rfl
      | some job => exact absurd (by simp [effect, Command.wire, htype, hjob]) (hno job.wire)
  · next htype => exact absurd htype hupdates
  · rfl

section History

variable {γ : Type} (start : γ) (next : γ → StatusCommand → γ)

/-- What a command makes of a value that is kept for a job: it is set to `start` with the job's
execution state, and goes on to the next one with every update that is accepted. -/
def remember (faults : ColdFaults) (f : FSM) (cmd : Command) (id : String) (x : γ) : γ :=
  let x := if f.createsState cmd id then start else x
  (f.acceptedUpdate faults cmd id).elim x (next x)

/-- The value that is kept for a job, after a log. -/
def history (id : String) : FSM → List (ColdFaults × Command) → γ → γ
  | _, [], x => x
  | f, entry :: log, x =>
    history id (f.apply entry.1 entry.2).1 log (remember start next entry.1 f entry.2 id x)

variable {start next} {P : JobExecutionState → γ → Prop} {D : StatusCommand → Prop} {f : FSM}
  {x : String → γ} {faults : ColdFaults} {cmd : Command}

/-- The execution states and the values kept for their jobs are in a certain relation. -/
def Remembers (P : JobExecutionState → γ → Prop) (f : FSM) (x : String → γ) : Prop :=
  ∀ id state, f.executionStates.lookup id = some state → P state (x id)

variable (hnew : ∀ id createdAt, P (newExecutionState id createdAt) start)
  (hattempts : ∀ state x kept, P state x → P { state with attempts := kept } x)
  (hupdate : ∀ state x sc, P state x → D sc →
    validateStateTransition state.status sc.status = none → P (state.update sc) (next x sc))

include hnew

/-- What a status update starts from. -/
lemma Remembers.stateFor (h : f.Remembers P x) (sc : StatusCommand) :
    P (f.stateFor sc)
      (if (f.executionStates.lookup sc.jobID).isNone then start else x sc.jobID) := by
  cases hstate : f.executionStates.lookup sc.jobID with
  | none => simpa [FSM.stateFor, hstate] using hnew _ _
  | some state => simpa [FSM.stateFor, hstate] using h sc.jobID state hstate

include hupdate

lemma Remembers.statusUpdate (h : f.Remembers P x) {sc : StatusCommand}
    (htype : cmd.type = .updateJobStatus) (hsc : cmd.statusCommand = some sc) (hD : D sc) :
    (f.apply faults cmd).1.Remembers P fun id => remember start next faults f cmd id (x id) := by
  intro id state hstate
  have haccepted := f.acceptedUpdate_of_update faults htype hsc id
  rw [apply_eq_statusUpdate htype hsc faults f, lookup_statusUpdate] at hstate
  by_cases hid : id = sc.jobID
  · subst hid
    have hstart := h.stateFor hnew sc
    have hcreates : f.createsState cmd sc.jobID = (f.executionStates.lookup sc.jobID).isNone := by
      cases hlookup : f.executionStates.lookup sc.jobID <;>
        simp [createsState, htype, hsc, hlookup]
    rw [if_pos rfl] at hstate
    obtain rfl := Option.some.inj hstate
    by_cases hvalid : validateStateTransition (f.statusOf sc.jobID) sc.status = none
    · rw [if_pos ⟨rfl, hvalid⟩] at haccepted
      rw [if_pos hvalid]
      simp only [remember, haccepted, hcreates, Option.elim_some]
      exact hupdate _ _ sc hstart hD (by rwa [stateFor_status])
    · rw [if_neg fun hboth => hvalid hboth.2] at haccepted
      rw [if_neg hvalid]
      simp only [remember, haccepted, hcreates, Option.elim_none]
      exact hstart
  · have hid' : sc.jobID ≠ id := fun heq => hid heq.symm
    rw [if_neg fun hboth => hid' hboth.1] at haccepted
    rw [if_neg hid] at hstate
    simpa [remember, haccepted, createsState, htype, hsc, hid'] using h id state hstate

include hattempts

/-- **One command.** -/
lemma Remembers.apply (h : f.Remembers P x)
    (hD : cmd.type = .updateJobStatus → ∀ sc ∈ cmd.statusCommand, D sc) :
    (f.apply faults cmd).1.Remembers P fun id => remember start next faults f cmd id (x id) := by
  by_cases hupdates : cmd.type = .updateJobStatus
  · cases hsc : cmd.statusCommand with
    | none =>
      intro id state hstate
      have hsame : (f.apply faults cmd).1 = f := by
        simp [FSM.apply, Command.wire, applyCommandInternal, hupdates, hsc]
      rw [hsame] at hstate
      simpa [remember, acceptedUpdate, createsState, hupdates, hsc] using h id state hstate
    | some sc => exact h.statusUpdate hnew hupdate hupdates hsc (hD hupdates sc hsc)
  · have hremember : ∀ id, remember start next faults f cmd id (x id)
        = if f.createsState cmd id then start else x id := by
      intro id
      rw [remember, acceptedUpdate_of_not_update faults f hupdates]
      rfl
    intro id state hstate
    simp only [hremember]
    have hof := f.effectOf faults cmd.wire
    rw [apply_fst] at hstate
    cases heffect : f.effect faults cmd.wire with
    | putJob job =>
      rw [heffect] at hof hstate
      cases hof with
      | putJob htype harg =>
        obtain ⟨given, hgiven, rfl⟩ := Option.map_eq_some_iff.mp harg
        have hcreate : f.createsState cmd id = true ↔ id = given.id := by
          have htype' : cmd.type = .createJob := htype
          simp [createsState, htype', hgiven, eq_comm]
        simp only [Effect.act, Finmap.lookup_insert_ite] at hstate
        split_ifs at hstate with hid
        · rw [← Option.some.inj hstate, if_pos (hcreate.mpr hid)]
          exact hnew _ _
        · rw [if_neg fun hyes => hid (hcreate.mp hyes)]
          exact h id state hstate
    | dropJob dropped =>
      rw [createsState_of_not_putJob faults hupdates (by simp [heffect]) id]
      simp only [heffect, Effect.act, Finmap.lookup_erase_ite] at hstate
      split_ifs at hstate
      exact h id state hstate
    | putState written new =>
      rw [createsState_of_not_putJob faults hupdates (by simp [heffect]) id]
      simp only [heffect, Effect.act, Finmap.lookup_insert_ite] at hstate
      split_ifs at hstate with hid
      · subst hid
        obtain rfl := Option.some.inj hstate
        rcases putState_cases heffect with ⟨_, htype, _⟩ | ⟨_, old, kept, hold, rfl⟩
        · exact absurd htype hupdates
        · exact hattempts _ _ kept (h id old hold)
      · exact h id state hstate
    | _ =>
      rw [createsState_of_not_putJob faults hupdates (by simp [heffect]) id]
      rw [heffect] at hstate
      exact h id state hstate

/-- **Along a whole log.**  By induction on the log, for any values to start from. -/
theorem Remembers.applyLog {log : List (ColdFaults × Command)}
    (hlog : ∀ entry ∈ log, entry.2.type = .updateJobStatus → ∀ sc ∈ entry.2.statusCommand, D sc)
    (h : f.Remembers P x) :
    (f.applyLog log).Remembers P fun id => history start next id f log (x id) := by
  induction log generalizing f x with
  | nil => exact h
  | cons entry log ih =>
    exact ih (fun y hy => hlog y (List.mem_cons_of_mem entry hy))
      (h.apply hnew hattempts hupdate (hlog entry List.mem_cons_self))

end History

/-- The command is an update of the job to `in_progress`, and accepted. -/
def grants (faults : ColdFaults) (f : FSM) (cmd : Command) (id : String) : Bool :=
  match cmd.type with
  | .updateJobStatus =>
    cmd.statusCommand.any fun sc =>
      sc.jobID = id ∧ sc.status = .inProgress ∧ (f.apply faults cmd).2.isError = false
  | _ => false

/-- How many updates of the job to `in_progress` were accepted since its execution state was last
created, `n` being their number before the log. -/
def grantsSince (id : String) : FSM → List (ColdFaults × Command) → ℕ → ℕ
  | _, [], n => n
  | f, entry :: log, n =>
    grantsSince id (f.apply entry.1 entry.2).1 log
      ((if f.createsState entry.2 id then 0 else n)
        + if f.grants entry.1 entry.2 id then 1 else 0)

/-- Every execution state is consistent with the number of updates that `grants` gives. -/
def StatesConsistent (f : FSM) (grants : String → ℕ) : Prop :=
  ∀ id state, f.executionStates.lookup id = some state → state.Consistent (grants id)

/-- Counting grants is keeping a value. -/
lemma grantsSince_eq_history (id : String) (f : FSM) (log : List (ColdFaults × Command)) (n : ℕ) :
    grantsSince id f log n
      = history 0 (fun n sc => n + if sc.status = .inProgress then 1 else 0) id f log n := by
  induction log generalizing f n with
  | nil => rfl
  | cons entry log ih =>
    rw [grantsSince, history, ih]
    congr 1
    by_cases htype : entry.2.type = .updateJobStatus
    · cases hsc : entry.2.statusCommand with
      | none => simp [remember, acceptedUpdate, FSM.grants, htype, hsc]
      | some sc =>
        simp only [remember, acceptedUpdate, FSM.grants, htype, hsc, Option.any_some]
        by_cases hid : sc.jobID = id
        · by_cases haccepted : (f.apply entry.1 entry.2).2.isError = false
          · simp [hid, haccepted]
          · simp [hid, haccepted]
        · simp [hid]
    · have hgrants : f.grants entry.1 entry.2 id = false := by
        unfold FSM.grants
        split
        · next hupdate => exact absurd hupdate htype
        · rfl
      simp [remember, acceptedUpdate_of_not_update entry.1 f htype, hgrants]

variable {f : FSM}

lemma Filed.applyLog {log : List (ColdFaults × Command)} (h : f.Filed) :
    (f.applyLog log).Filed := by
  induction log generalizing f with
  | nil => exact h
  | cons entry log ih => exact ih (h.apply entry.1 entry.2)

/-- The state a node starts with, with or without a cold store. -/
def empty (coldSpilling : Bool) : FSM := blank (if coldSpilling then some ∅ else none)

lemma filed_empty (coldSpilling : Bool) : (empty coldSpilling).Filed := by
  cases coldSpilling with
  | false => exact filed_newFSM
  | true => exact filed_newFSMWithColdStore

/-- Whatever is remembered, the state a node starts with fits. -/
lemma remembers_empty {γ : Type} (P : JobExecutionState → γ → Prop) (coldSpilling : Bool)
    (x : String → γ) : (empty coldSpilling).Remembers P x := by
  intro id state hstate
  cases coldSpilling with
  | false | true => simp [empty, blank, newFSM] at hstate

/-- **Execution states are consistent**, and everything is filed under its own name, after every log
of stamped commands. -/
theorem consistent_of_log (coldSpilling : Bool) (log : List (ColdFaults × Command))
    (hlog : ∀ entry ∈ log, entry.2.Stamped) :
    ((empty coldSpilling).applyLog log).Filed ∧
      ((empty coldSpilling).applyLog log).StatesConsistent fun id =>
        grantsSince id (empty coldSpilling) log 0 := by
  refine ⟨(filed_empty coldSpilling).applyLog, ?_⟩
  simp only [grantsSince_eq_history]
  refine Remembers.applyLog (D := fun sc => 0 < sc.timestamp ∧
    (sc.status = .inProgress → sc.nodeID ≠ "")) (fun _ _ => .new _ _)
    (fun _ _ _ h => { h with }) (fun _ _ sc h hD hvalid => ?_) hlog
    (remembers_empty _ coldSpilling _)
  exact h.update hvalid hD.1 hD.2

/-- A job that failed once and is tried again has seen two grants. -/
theorem consistent_of_retry :
    let log : List (ColdFaults × Command) :=
      [({}, { type := .createJob, job := some { id := "a", type := .unico, timestamp := some 5 } }),
        ({}, statusUpdate { jobID := "a", status := .inProgress, nodeID := "n", timestamp := 6 }),
        ({}, statusUpdate { jobID := "a", status := .failed, timestamp := 7 }),
        ({}, statusUpdate { jobID := "a", status := .inProgress, nodeID := "n", timestamp := 8 })]
    ((empty true).applyLog log).StatesConsistent (fun id => grantsSince id (empty true) log 0) ∧
      grantsSince "a" (empty true) log 0 = 2 :=
  ⟨(consistent_of_log true _ (by decide)).2, by decide⟩

end FSM

end ScheduledDb
