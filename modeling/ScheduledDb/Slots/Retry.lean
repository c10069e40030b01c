import ScheduledDb.Slots.Passes

/-!
# What becomes of a job that could be retried

A failed job may go back to `in_progress` until its attempts are used up; the state machine and the
execution manager are made for that.  The worker is not: `processSlots` deletes every job it has
executed, whatever came of it, so that the first failed webhook call of a `unico` job is its last
(`unico_deleted_after_first_failure`).

`retry_kept` says when no harm is done: when the webhook calls of `unico` jobs fail only at the last
attempt, and the worker does not find such a job `in_progress` when it starts (which it would skip,
and delete).
-/

namespace ScheduledDb

open Program StatusTracker FSM Event

namespace FSM

/-- The store has a `unico` job of that id. -/
def hasUnico (f : FSM) (id : String) : Bool := (f.jobs.lookup id).any fun job => job.type = .unico

/-- Nothing is left to do for the job. -/
def Finished (maxAttempts : ℤ) (f : FSM) (id : String) : Prop :=
  f.statusOf id = .completed ∨ f.statusOf id = .cancelled ∨ maxAttempts ≤ f.attemptsOf id

instance (maxAttempts : ℤ) (f : FSM) (id : String) : Decidable (f.Finished maxAttempts id) :=
  inferInstanceAs (Decidable (_ ∨ _ ∨ _))

/-- The worker can execute the job, or need not. -/
def ReadyAt (maxAttempts : ℤ) (f : FSM) (id : String) : Prop :=
  StatusTracker.executable (f.statusOf id) = .ok true ∨ f.Finished maxAttempts id

/-- Every `unico` job can be executed or is finished. -/
def Ready (maxAttempts : ℤ) (f : FSM) : Prop := ∀ id, f.hasUnico id = true → f.ReadyAt maxAttempts id

instance (maxAttempts : ℤ) (f : FSM) (id : String) : Decidable (f.ReadyAt maxAttempts id) :=
  inferInstanceAs (Decidable (_ ∨ _))

lemma ready_iff (maxAttempts : ℤ) (f : FSM) :
    (∀ id ∈ f.jobs.keys, f.hasUnico id = true → f.ReadyAt maxAttempts id) ↔ f.Ready maxAttempts := by
  refine ⟨fun h id hunico => h id ?_ hunico, fun h id _ => h id⟩
  cases hjob : f.jobs.lookup id with
  | none => simp [hasUnico, hjob] at hunico
  | some job => exact Finmap.mem_keys.mpr (Finmap.mem_of_lookup_eq_some hjob)

instance (maxAttempts : ℤ) (f : FSM) : Decidable (f.Ready maxAttempts) :=
  decidable_of_iff _ (ready_iff maxAttempts f)

/-- The job is in a slot. -/
def Listed (f : FSM) (id : String) : Prop :=
  ∃ key slotData, f.getSlot key false = some slotData ∧ id ∈ slotData.jobIDs

/-- What a change of the state has to leave as it is for a `unico` job that is still there. -/
def Keeps (maxAttempts : ℤ) (f f' : FSM) (id : String) : Prop :=
  f'.hasUnico id = true → f.hasUnico id = true ∧
    (f.ReadyAt maxAttempts id → f'.ReadyAt maxAttempts id) ∧
    (f.Finished maxAttempts id → f'.Finished maxAttempts id)

lemma keeps_of_lookup {maxAttempts : ℤ} {f f' : FSM} {id : String}
    (hjobs : f'.jobs.lookup id = f.jobs.lookup id)
    (hstates : f'.executionStates.lookup id = f.executionStates.lookup id) :
    Keeps maxAttempts f f' id := by
  have hstatus : f'.statusOf id = f.statusOf id := by rw [statusOf, statusOf, hstates]
  have hattempts : f'.attemptsOf id = f.attemptsOf id := by rw [attemptsOf, attemptsOf, hstates]
  intro hunico
  rw [hasUnico, hjobs] at hunico
  refine ⟨hunico, fun h => ?_, fun h => ?_⟩
  · rwa [ReadyAt, Finished, hstatus, hattempts]
  · rwa [Finished, hstatus, hattempts]

variable {maxAttempts : ℤ} {f : FSM} (faults : ColdFaults)

lemma keeps_slotCommand {cmd : Command} (h : PersistentSlotQueue.IsSlotCommand cmd)
    (id : String) : Keeps maxAttempts f (f.apply faults cmd).1 id := by
  have hsame := sameJobs_apply h.leavesJobs f faults
  exact keeps_of_lookup (by rw [hsame.jobs]) (by rw [h.executionStates f faults])

/-- Creating a job of another type. -/
lemma keeps_createJob {job : Job} (hjob : job.type ≠ .unico) (id : String) :
    Keeps maxAttempts f (f.apply faults { type := .createJob, job := some job }).1 id := by
  rw [apply_fst]
  by_cases hid : id = job.id
  · subst hid
    intro hunico
    simp [effect, Command.wire, Effect.act, hasUnico, Job.wire, hjob] at hunico
  · refine keeps_of_lookup ?_ ?_
    · simp [effect, Command.wire, Effect.act, Job.wire, hid]
    · simp [effect, Command.wire, Effect.act, Job.wire, hid]

lemma keeps_deleteJob (id' id : String) :
    Keeps maxAttempts f (f.apply faults { type := .deleteJob, id := id' }).1 id := by
  rw [apply_fst]
  by_cases hempty : id' = ""
  · refine keeps_of_lookup ?_ ?_
    · simp [effect, Command.wire, Effect.act, hempty]
    · simp [effect, Command.wire, Effect.act, hempty]
  · by_cases hid : id = id'
    · subst hid
      intro hunico
      simp [effect, Command.wire, Effect.act, hasUnico, hempty] at hunico
    · refine keeps_of_lookup ?_ ?_
      · simp [effect, Command.wire, Effect.act, hid, hempty]
      · simp [effect, Command.wire, Effect.act, hid, hempty]

/-- A timeout makes the job executable again, and a finished one stays finished. -/
lemma keeps_timeout {sc : StatusCommand} (hstatus : sc.status = .timeout) (id : String) :
    Keeps maxAttempts f (f.apply faults (statusUpdate sc)).1 id := by
  have hne : sc.status ≠ .inProgress := by simp [hstatus]
  intro hunico
  rw [hasUnico, (sameJobs_apply (statusUpdate_leavesJobs sc) f faults).jobs] at hunico
  refine ⟨hunico, ?_⟩
  rw [ReadyAt, ReadyAt, Finished, Finished, statusOf_statusUpdate,
    attemptsOf_statusUpdate faults f hne, hstatus]
  split_ifs with hmoved
  · obtain ⟨rfl, hvalid⟩ := hmoved
    refine ⟨fun _ => Or.inl rfl, ?_⟩
    rintro (h | h | h)
    · rw [h] at hvalid
      simp [validateStateTransition, validTransitions] at hvalid
    · rw [h] at hvalid
      simp [validateStateTransition, validTransitions] at hvalid
    · exact Or.inr (Or.inr h)
  · exact ⟨fun h => h, fun h => h⟩

/-- Status commands leave other jobs alone. -/
lemma keeps_statusUpdate {sc : StatusCommand} {id : String} (hid : id ≠ sc.jobID) :
    Keeps maxAttempts f (f.apply faults (statusUpdate sc)).1 id :=
  keeps_of_lookup (by rw [(sameJobs_apply (statusUpdate_leavesJobs sc) f faults).jobs])
    (by rw [lookup_statusUpdate, if_neg hid])

lemma keeps_attemptRecord (sc : StatusCommand) (id : String) :
    Keeps maxAttempts f (f.apply faults (attemptRecord sc)).1 id := by
  intro hunico
  rw [hasUnico, (sameJobs_apply (attemptRecord_leavesJobs sc) f faults).jobs] at hunico
  refine ⟨hunico, fun h => ?_, fun h => ?_⟩
  · rwa [ReadyAt, Finished, statusOf_attemptRecord, attemptsOf_attemptRecord]
  · rwa [Finished, statusOf_attemptRecord, attemptsOf_attemptRecord]

end FSM

/-! ## What should not happen -/

namespace Event

/-- A `unico` job was deleted that was not finished. -/
def discards (maxAttempts : ℤ) : Event → Bool
  | .applied before cmd response =>
    cmd.type = .deleteJob && !response.isError && before.hasUnico cmd.id
      && !decide (before.Finished maxAttempts cmd.id)
  | _ => false

/-- An attempt at the `unico` job has ended as `failed`, and there are attempts left. -/
def retryable (maxAttempts : ℤ) (id : String) : Event → Bool
  | .applied before cmd response =>
    match cmd.type, cmd.statusCommand with
    | .updateJobStatus, some sc =>
      sc.jobID = id && sc.status = .failed && !response.isError && before.hasUnico id
        && decide (before.attemptsOf id < maxAttempts)
    | _, _ => false
  | _ => false

end Event

/-- No unfinished `unico` job was deleted, and one that can be retried is in the store and in a
slot. -/
structure RetryKept (maxAttempts : ℤ) (events : List (ℕ × Event)) (f : FSM) : Prop where
  deleted : ∀ x ∈ events, x.2.discards maxAttempts = false
  retried : ∀ x ∈ events, ∀ id, x.2.retryable maxAttempts id = true →
    (f.getJob id).isSome = true ∧ f.Listed id

/-- On a stable leader, the webhook of a `unico` job fails at the last attempt only. -/
def FailsLast (maxAttempts : ℤ) (β : Type) (a : Act β) (e : Env) (s : Node) : Prop :=
  e.Stable ∧
    match β, a with
    | _, .executeWebhook job =>
      s.fsm.hasUnico job.id = true →
        (ExecutionManager.webhookResult job e.webhook).2.2 = none ∨
          maxAttempts ≤ s.fsm.attemptsOf job.id
    | _, _ => True

/-! ## The invariant -/

/-- Between any two steps of the worker, in a run that started in `n`: the jobs `ids` are about to be
deleted, and one job may be `busy` being executed. -/
structure Kept (maxAttempts : ℤ) (n : Node) (ids : List String) (busy : Option String) (s : Node) :
    Prop where
  ready : ∀ id, busy ≠ some id → s.fsm.hasUnico id = true → s.fsm.ReadyAt maxAttempts id
  settled : ∀ id ∈ ids, busy ≠ some id → s.fsm.hasUnico id = true → s.fsm.Finished maxAttempts id
  events : ∀ x ∈ n.newEvents s,
    x.2.discards maxAttempts = false ∧ ∀ id, x.2.retryable maxAttempts id = false

namespace Kept

variable {maxAttempts : ℤ} {n s : Node} {ids ids' : List String} {busy : Option String}
  {id : String} {s' : Node} {cmd : Command} {thread : ℕ}

lemma mono (h : Kept maxAttempts n ids busy s) (hids : ∀ id ∈ ids', id ∈ ids) :
    Kept maxAttempts n ids' busy s :=
  { h with settled := fun id hid => h.settled id (hids id hid) }

lemma start (h : Kept maxAttempts n ids none s) (id : String) :
    Kept maxAttempts n ids (some id) s where
  ready := fun id' _ => h.ready id' (by simp)
  settled := fun id' hid' _ => h.settled id' hid' (by simp)
  events := h.events

/-- An executed job that is finished may be deleted. -/
lemma finish (h : Kept maxAttempts n ids (some id) s)
    (hid : s.fsm.hasUnico id = true → s.fsm.Finished maxAttempts id) :
    Kept maxAttempts n (id :: ids) none s where
  ready := by
    intro id' _ hunico
    by_cases heq : id' = id
    · subst heq
      exact Or.inr (hid hunico)
    · exact h.ready id' (by simpa using Ne.symm heq) hunico
  settled := by
    intro id' hid' _ hunico
    by_cases heq : id' = id
    · subst heq
      exact hid hunico
    · have hmem : id' ∈ ids := (List.mem_cons.mp hid').resolve_left heq
      exact h.settled id' hmem (by simpa using Ne.symm heq) hunico
  events := h.events

/-- What a step has to do to keep the invariant. -/
lemma of_step {evs : List (ℕ × Event)} (h : Kept maxAttempts n ids busy s)
    (hfsm : ∀ id, busy ≠ some id → Keeps maxAttempts s.fsm s'.fsm id)
    (htrace : s'.trace = s.trace ++ evs) (hevs : ∀ x ∈ evs, x.2.discards maxAttempts = false ∧
      ∀ id, x.2.retryable maxAttempts id = false) : Kept maxAttempts n ids busy s' where
  ready := by
    intro id hid hunico
    obtain ⟨hold, hready, _⟩ := hfsm id hid hunico
    exact hready (h.ready id hid hold)
  settled := by
    intro id hmem hid hunico
    obtain ⟨hold, _, hfinished⟩ := hfsm id hid hunico
    exact hfinished (h.settled id hmem hid hold)
  events := by
    intro x hx
    rw [Node.newEvents, htrace, List.drop_append] at hx
    rcases List.mem_append.mp hx with hx | hx
    · exact h.events x hx
    · exact hevs x (List.mem_of_mem_drop hx)

/-- A command that keeps the other jobs and is none of the two things that should not happen. -/
lemma applyCommand (h : Kept maxAttempts n ids busy s) (thread : ℕ) (faults : ColdFaults)
    (hfsm : ∀ id, busy ≠ some id → Keeps maxAttempts s.fsm (s.fsm.apply faults cmd).1 id)
    (hdiscards : (applied s.fsm cmd (s.fsm.apply faults cmd).2).discards maxAttempts = false)
    (hretryable : ∀ id, (applied s.fsm cmd (s.fsm.apply faults cmd).2).retryable maxAttempts id
      = false) : Kept maxAttempts n ids busy (s.applyCommand thread faults cmd) :=
  h.of_step hfsm rfl fun x hx => by
    rw [List.mem_singleton.mp hx]
    exact ⟨hdiscards, hretryable⟩

/-- A step that leaves the state machine alone. -/
lemma record {event : Event} (h : Kept maxAttempts n ids busy s) (thread : ℕ)
    (hevent : ∀ before cmd response, event ≠ .applied before cmd response) :
    Kept maxAttempts n ids busy (s.record thread event) := by
  refine h.of_step (fun id _ => keeps_of_lookup rfl rfl) rfl fun x hx => ?_
  rw [List.mem_singleton.mp hx]
  cases event with
  | applied before cmd response => exact absurd rfl (hevent before cmd response)
  | _ => exact ⟨rfl, fun _ => rfl⟩

/-! ## Steps between executions -/

/-- The commands that the worker issues besides executing jobs. -/
inductive Harmless (ids : List String) : Command → Prop where
  | slot {cmd : Command} (h : PersistentSlotQueue.IsSlotCommand cmd) : Harmless ids cmd
  | create {job : Job} (h : job.type ≠ .unico) :
      Harmless ids { type := .createJob, job := some job }
  | delete {id : String} (h : id ∈ ids) : Harmless ids { type := .deleteJob, id := id }
  | timeout {sc : StatusCommand} (h : sc.status = .timeout) : Harmless ids (FSM.statusUpdate sc)

lemma harmless (h : Kept maxAttempts n ids none s) (hcmd : Harmless ids cmd) (thread : ℕ)
    (faults : ColdFaults) : Kept maxAttempts n ids none (s.applyCommand thread faults cmd) := by
  cases hcmd with
  | slot hslot =>
    refine h.applyCommand thread faults (fun id _ => keeps_slotCommand faults hslot id) ?_ ?_
    · rcases hslot with htype | htype <;> simp [discards, htype]
    · rcases hslot with htype | htype <;> simp [retryable, htype]
  | create hjob =>
    exact h.applyCommand thread faults (fun id _ => keeps_createJob faults hjob id)
      (by simp [discards]) (by simp [retryable])
  | @delete id hid =>
    refine h.applyCommand thread faults (fun id' _ => keeps_deleteJob faults id id') ?_
      (by simp [retryable])
    simp only [discards, Bool.and_eq_false_imp, Bool.and_eq_true]
    rintro ⟨_, hunico⟩
    simpa using h.settled id hid (by simp) hunico
  | @timeout sc hstatus =>
    exact h.applyCommand thread faults (fun id _ => keeps_timeout faults hstatus id)
      (by simp [discards, statusUpdate])
      (by simp [retryable, statusUpdate, hstatus])

/-- **Whatever the worker does between executions keeps the invariant.** -/
lemma quiet {α : Type} {p : Program Act α} (h : Kept maxAttempts n ids none s)
    (hp : All (Quiet (Harmless ids)) p) :
    wpWith (demonic (handle thread) (FailsLast maxAttempts)) p
      (fun _ => Kept maxAttempts n ids none) s := by
  refine hp.invariant (fun a e s ha _ hs => ?_) h
  cases a with
  | raftApply cmd =>
    simp only [handle]
    split_ifs
    · exact hs.harmless ha thread e.faults
    · exact hs
  | executeWebhook job => exact absurd ha (fun h => h)
  | statusChanged oldStatus newStatus => exact hs.record thread fun _ _ _ => by simp
  | _ =>
    exact hs.of_step (fun id _ => keeps_of_lookup rfl rfl) (handle_trace thread _ e s)
      fun x hx => by cases hx

/-! ## Executing a job -/

/-- What is about to be, or was, done to the busy job does not matter, except that a failure has to
be its last. -/
lemma mark {st : StatusTracker} {op : MarkOp} (h : Kept maxAttempts n ids (some id) s)
    (hafter : MarkOp.After st op id thread s s')
    (hfail : op.status = .failed → s.fsm.hasUnico id = true → maxAttempts ≤ s.fsm.attemptsOf id) :
    Kept maxAttempts n ids (some id) s' := by
  obtain ⟨nb, sc, prev, faults, hbefore, rfl, hstatus, rfl⟩ := hafter
  have hnb : Kept maxAttempts n ids (some sc.jobID) nb := by
    cases hrec : op.recorded with
    | none =>
      rw [MarkOp.Before, hrec] at hbefore
      rwa [hbefore]
    | some attempt =>
      rw [MarkOp.Before, hrec] at hbefore
      obtain ⟨now, faults', rfl⟩ := hbefore
      exact h.applyCommand thread faults' (fun id _ => keeps_attemptRecord faults' _ id)
        (by simp [discards, attemptRecord])
        (by simp [retryable, attemptRecord])
  have hupdated := hnb.applyCommand thread faults
    (fun id hid => keeps_statusUpdate faults (by simpa using Ne.symm hid))
    (by simp [discards, statusUpdate]) (by
      intro id
      simp only [retryable, statusUpdate, Bool.and_eq_false_imp, Bool.and_eq_true,
        decide_eq_true_eq, decide_eq_false_iff_not, not_lt]
      rintro ⟨⟨⟨rfl, hfailed⟩, _⟩, hunico⟩
      rw [hasUnico, hbefore.same.1] at hunico
      rw [hbefore.same.2.2]
      exact hfail (by rw [← hstatus]; exact hfailed) hunico)
  rw [notified]
  split_ifs
  · exact hupdated.record thread fun _ _ _ => by simp
  · exact hupdated

end Kept

namespace ExecutionManager

variable {thread : ℕ} {s : Node} {guard : ∀ β : Type, Act β → Env → Node → Prop}

lemma wp_canExecute {id : String} {Q : Except String Bool → Node → Prop}
    (h : Q (executable (s.fsm.statusOf id)) s) :
    wpWith (demonic (handle thread) guard) (canExecute id) Q s := by
  simp only [canExecute, perform_bind, wpWith_step]
  intro e _
  simp only [handle, getExecutionState]
  cases hstate : s.fsm.executionStates.lookup id with
  | none => simpa [statusOf, hstate, executable] using h
  | some state => simpa [statusOf, hstate] using h

lemma wp_nextAttempt {id : String} {Q : ℤ → Node → Prop} (h : Q (s.fsm.attemptsOf id + 1) s) :
    wpWith (demonic (handle thread) guard) (nextAttempt id) Q s := by
  simp only [nextAttempt, getStatus, wpWith_bind, perform_bind, wpWith_step]
  intro e _
  simp only [handle, getExecutionState]
  cases hstate : s.fsm.executionStates.lookup id with
  | none | some state => simpa [attemptsOf, hstate] using h

/-- The status of a job in progress can be read. -/
lemma wp_getStatus {id : String} {Q : Except String JobExecutionState → Node → Prop}
    (hstatus : s.fsm.statusOf id = .inProgress)
    (h : ∀ state : JobExecutionState, state.status = .inProgress → Q (.ok state) s) :
    wpWith (demonic (handle thread) guard) (getStatus id) Q s := by
  simp only [getStatus, perform_bind, wpWith_step]
  intro e _
  simp only [handle, getExecutionState]
  cases hstate : s.fsm.executionStates.lookup id with
  | none => simp [statusOf, hstate] at hstatus
  | some state => exact h state (by simpa [statusOf, hstate] using hstatus)

variable {n : Node} {ids : List String} (em : ExecutionManager) (job : Job)

/-- The four `Mark…` calls, in a run that meets the condition. -/
lemma wp_markOp {maxAttempts : ℤ} (op : MarkOp) (id : String) :
    wpWith (demonic (handle thread) (FailsLast maxAttempts)) (op.call em.statusTracker id)
      (fun r s' => r = none ∧ MarkOp.After em.statusTracker op id thread s s') s :=
  (MarkOp.wp_call em.statusTracker op id).guarded fun _ _ _ h => h.1

lemma wp_finishFailed (attempt : ExecutionAttempt) (httpStatus : ℤ) (err : WebhookError)
    (h : Kept em.maxAttempts n ids (some job.id) s) (hstatus : s.fsm.statusOf job.id = .inProgress)
    (hlast : s.fsm.hasUnico job.id = true → em.maxAttempts ≤ s.fsm.attemptsOf job.id) :
    wpWith (demonic (handle thread) (FailsLast em.maxAttempts))
      (em.finishFailed job attempt httpStatus err)
      (fun _ => Kept em.maxAttempts n (job.id :: ids) none) s := by
  refine wpWith_bind.mpr (wp_getStatus hstatus fun state hstate => ?_)
  refine wpWith_ite.mpr ⟨fun hcancelled => ?_, fun _ => ?_⟩
  · rw [hstate] at hcancelled
    cases hcancelled
  refine wpWith_seq demonic_mono (em.wp_markOp (.failed _) job.id) ?_
  rintro _ s' ⟨_, hafter⟩
  refine (h.mark hafter fun _ => hlast).finish fun hunico => ?_
  rw [hasUnico, hafter.jobs] at hunico
  rw [Finished, hafter.attemptsOf (by simp [MarkOp.status])]
  exact Or.inr (Or.inr (hlast hunico))

lemma wp_finishSucceeded (attempt : ExecutionAttempt) (httpStatus : ℤ)
    (h : Kept em.maxAttempts n ids (some job.id) s)
    (hstatus : s.fsm.statusOf job.id = .inProgress) :
    wpWith (demonic (handle thread) (FailsLast em.maxAttempts))
      (em.finishSucceeded job attempt httpStatus)
      (fun _ => Kept em.maxAttempts n (job.id :: ids) none) s := by
  refine wpWith_bind.mpr (wp_getStatus hstatus fun state hstate => ?_)
  refine wpWith_ite.mpr ⟨fun hcancelled => ?_, fun _ => ?_⟩
  · rw [hstate] at hcancelled
    cases hcancelled
  refine wpWith_mono demonic_mono (em.wp_markOp (.completed _) job.id) ?_
  rintro _ s' ⟨_, hafter⟩
  refine (h.mark hafter fun hfailed => by cases hfailed).finish fun _ => Or.inl ?_
  exact hafter.statusOf (by rw [hstatus]; rfl)

lemma wp_callWebhook (attemptNum : ℤ) (h : Kept em.maxAttempts n ids (some job.id) s)
    (hstatus : s.fsm.statusOf job.id = .inProgress) :
    wpWith (demonic (handle thread) (FailsLast em.maxAttempts)) (em.callWebhook job attemptNum)
      (fun _ => Kept em.maxAttempts n (job.id :: ids) none) s := by
  simp only [callWebhook, perform_bind, wpWith_step]
  intro e1 _ e2 hlast e3 _
  have hcalled : Kept em.maxAttempts n ids (some job.id) (s.record thread (.webhook job)) :=
    h.record thread fun _ _ _ => by simp
  simp only [handle]
  cases herr : (webhookResult job e2.webhook).2.2 with
  | some err =>
    refine em.wp_finishFailed job _ _ err hcalled hstatus fun hunico => ?_
    exact (hlast.2 hunico).resolve_left (by simp [herr])
  | none => exact em.wp_finishSucceeded job _ _ hcalled hstatus

/-- **After an execution the job is finished.** -/
lemma wp_execute (h : Kept em.maxAttempts n ids none s) :
    wpWith (demonic (handle thread) (FailsLast em.maxAttempts)) (em.execute job)
      (fun _ => Kept em.maxAttempts n (job.id :: ids) none) s := by
  refine wpWith_bind.mpr (wp_canExecute ?_)
  -- A job that is skipped is not executable, so it is finished.
  have hskipped : executable (s.fsm.statusOf job.id) ≠ .ok true →
      Kept em.maxAttempts n (job.id :: ids) none s := fun hno =>
    (h.start job.id).finish fun hunico => (h.ready job.id (by simp) hunico).resolve_left hno
  cases hexec : executable (s.fsm.statusOf job.id) with
  | error err => exact hskipped (by simp [hexec])
  | ok can =>
    cases can with
    | false => exact hskipped (by simp [hexec])
    | true =>
      refine wpWith_bind.mpr (wp_nextAttempt (wpWith_ite.mpr ⟨fun hspent => ?_, fun _ => ?_⟩))
      · refine (h.start job.id).finish fun _ => Or.inr (Or.inr ?_)
        omega
      · refine wpWith_bind.mpr
          (wpWith_mono demonic_mono (em.wp_markOp (.inProgress em.nodeID) job.id) ?_)
        rintro _ s' ⟨rfl, hafter⟩
        refine em.wp_callWebhook job _ ((h.start job.id).mark hafter fun hf => by cases hf) ?_
        refine hafter.statusOf ?_
        generalize s.fsm.statusOf job.id = status at hexec ⊢
        cases status <;> first | rfl | cases hexec

end ExecutionManager


/-! ## The worker -/

namespace Worker

variable {thread : ℕ} {n : Node} (w : Worker) {s : Node}

/-- What the loop over the jobs of a slot keeps. -/
def RoundKept (n : Node) (round : Round) (s : Node) : Prop :=
  Kept w.executionManager.maxAttempts n round.jobsToRemove none s ∧
    ∀ job ∈ round.jobsToReschedule, job.type ≠ .unico

lemma roundKept_settle {now : ℤ} {round : Round} {job : Job}
    (hdue : shouldExecuteJob job now = true)
    (h : Kept w.executionManager.maxAttempts n (job.id :: round.jobsToRemove) none s)
    (hres : ∀ job ∈ round.jobsToReschedule, job.type ≠ .unico) :
    w.RoundKept n (w.settle now round job) s := by
  have hnoted := w.noted_settle hdue round
  refine ⟨h.mono fun id hid => ?_, fun job' hjob' => ?_⟩
  · rw [hnoted.removed] at hid
    simpa [or_comm] using hid
  · rw [hnoted.rescheduled] at hjob'
    rcases List.mem_append.mp hjob' with hold | hnew
    · exact hres job' hold
    · obtain ⟨old, -, hold⟩ := List.mem_filterMap.mp hnew
      obtain ⟨htype, -, rfl⟩ := renewed_eq_some hold
      simp [htype]

lemma kept_processJob (now : ℤ) (round : Round) (job : Job) (h : w.RoundKept n round s) :
    wpWith (demonic (handle thread) (FailsLast w.executionManager.maxAttempts))
      (w.processJob now round job) (w.RoundKept n) s := by
  refine wpWith_ite.mpr ⟨fun hdue => wpWith_bind.mpr ?_, fun _ => h⟩
  exact wpWith_mono demonic_mono (w.executionManager.wp_execute job h.1) fun _ s' hs' =>
    w.roundKept_settle hdue hs' h.2

lemma kept_processSlot (now : ℤ) (slot : Slot)
    (h : Kept w.executionManager.maxAttempts n [] none s) :
    wpWith (demonic (handle thread) (FailsLast w.executionManager.maxAttempts))
      (w.processSlot now slot)
      (fun _ => Kept w.executionManager.maxAttempts n [] none) s := by
  refine wpWith_seq demonic_mono (wpWith_foldEach demonic_mono
    (I := w.RoundKept n) slot.jobs (fun job _ round s hs => w.kept_processJob now round job hs)
    ⟨h, by simp⟩) ?_
  rintro round s' ⟨hkept, hres⟩
  refine wpWith_seq demonic_mono
    (hkept.quiet (all_forEach fun id hid => all_removeExecuted (fun _ h => .slot h) (.delete hid)))
    fun _ s2 h2 => ?_
  refine wpWith_seq demonic_mono
    (h2.quiet (all_forEach fun job hjob =>
      all_reschedule (fun _ h => .slot h) (.create (hres job hjob))))
    fun _ s3 h3 => ?_
  exact h3.mono (by simp)

lemma kept_processLoop (now : ℤ) (left : ℕ) (h : Kept w.executionManager.maxAttempts n [] none s) :
    wpWith (demonic (handle thread) (FailsLast w.executionManager.maxAttempts))
      (w.processLoop now left) (fun _ => Kept w.executionManager.maxAttempts n [] none) s := by
  refine wpWith_processLoop demonic_mono (J := fun _ _ => True) (fun s h => ?_)
    (fun slot s h _ => w.kept_processSlot now slot h) left h
  have hquiet : All (Quiet (Kept.Harmless [])) PersistentSlotQueue.getNextSlot :=
    Store.quiet_mono PersistentSlotQueue.all_getNextSlot fun _ h => .slot h
  exact wpWith_mono demonic_mono (h.quiet hquiet) fun _ s' h' => ⟨h', fun _ _ => trivial⟩

lemma kept_tick (tick : Tick) (h : Kept w.executionManager.maxAttempts n [] none s) :
    wpWith (demonic (handle thread) (FailsLast w.executionManager.maxAttempts)) (w.tick tick)
      (fun _ => Kept w.executionManager.maxAttempts n [] none) s := by
  cases tick with
  | slots => exact fun e _ => w.kept_processLoop e.now 10 h
  | timeouts =>
    refine h.quiet ?_
    simp only [Worker.tick, checkTimeouts, perform_bind, all_step, all_ite]
    refine ⟨trivial, fun _ => ⟨fun _ => All.bind ?_ fun _ => trivial, fun _ => trivial⟩⟩
    exact Store.quiet_of_detached
      (all_checkTimeouts _ _ fun sc hsc => .timeout hsc)

/-- **A retryable job is not discarded** in a run of the worker on a stable leader in which webhook
calls of `unico` jobs fail at the last attempt only, if it starts with every `unico` job executable
or finished. -/
theorem retry_kept (ticks : List Tick) (n : Node) (env : ℕ → Env)
    (hready : n.fsm.Ready w.executionManager.maxAttempts)
    (hmeets : Meets (handle workerThread) (FailsLast w.executionManager.maxAttempts) (w.run ticks)
      env n) :
    RetryKept w.executionManager.maxAttempts
      (n.newEvents (Program.run (handle workerThread) (w.run ticks) env n).1)
      (Program.run (handle workerThread) (w.run ticks) env n).1.fsm := by
  have hstart : Kept w.executionManager.maxAttempts n [] none n :=
    { ready := fun id _ => hready id
      settled := by simp
      events := by simp [Node.newEvents] }
  have hkept := wpWith_run (wpWith_forEach demonic_mono ticks
    (fun tick _ s hs => w.kept_tick tick hs) hstart) hmeets
  refine ⟨fun x hx => (hkept.events x hx).1, fun x hx id hid => ?_⟩
  rw [(hkept.events x hx).2 id] at hid
  cases hid

/-- A job due at second 5. -/
def dueJob : Job := { id := "a", type := .unico, timestamp := some 5, webhookURL := "http://h" }

/-- A pass of the worker at second 7, the webhook being answered with the given status code. -/
def passAnswered (statusCode : ℤ) : Node :=
  (Program.run (handle workerThread) (everyMinute.run [.slots])
    (fun _ => { Env.calm 7 with webhook := .response statusCode 0 }) (acceptedJob dueJob)).1

/-- A job whose webhook succeeds is executed and deleted. -/
theorem retry_kept_answered :
    (acceptedJob dueJob).fsm.Ready 3 ∧
      RetryKept 3 ((acceptedJob dueJob).newEvents (passAnswered 200)) (passAnswered 200).fsm := by
  have hready : (acceptedJob dueJob).fsm.Ready 3 := by decide +kernel
  refine ⟨hready, everyMinute.retry_kept [.slots] (acceptedJob dueJob)
    (fun _ => { Env.calm 7 with webhook := .response 200 0 }) hready ?_⟩
  refine meets_of_forall fun i _ a s => ⟨⟨rfl, rfl⟩, ?_⟩
  cases a with
  | executeWebhook job =>
    refine fun _ => Or.inl ?_
    show (ExecutionManager.webhookResult job (.response 200 0)).2.2 = none
    by_cases hurl : job.webhookURL = ""
    · simp [ExecutionManager.webhookResult, hurl]
    · simp [ExecutionManager.webhookResult, hurl]
  | _ => trivial

/-- **The first failure is the last**: the job has used one of three attempts when it is deleted. -/
theorem unico_deleted_after_first_failure :
    (acceptedJob dueJob).fsm.Ready 3 ∧ ((passAnswered 500).fsm.getJob "a").isSome = false ∧
      ¬ RetryKept 3 ((acceptedJob dueJob).newEvents (passAnswered 500)) (passAnswered 500).fsm := by
  refine ⟨by decide +kernel, by decide +kernel, fun hkept => ?_⟩
  have hdeleted := hkept.deleted
  revert hdeleted
  decide +kernel

end Worker

end ScheduledDb
