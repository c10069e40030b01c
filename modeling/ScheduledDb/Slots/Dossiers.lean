import ScheduledDb.Slots.Retry
import ScheduledDb.Slots.WatchedSlots

/-!
# Dossiers

What the store knows about a job that has not been executed yet: the job, its status and the number
of its attempts.  Creating and deleting jobs, executing one of them, cancelling it and the worker's
housekeeping are described here by what they do to all dossiers at once.

A job that waits, pending or cancelled, is executed at most once before it is deleted; `wp_execute`
says that its webhook is then started exactly if it was not cancelled.
-/

namespace ScheduledDb

open Machine Program PersistentSlotQueue StatusTracker FSM

/-- What decides what becomes of a job: the job, its status, and how often it was tried. -/
structure Dossier where
  job : Job
  status : JobStatus
  attemptCount : ℤ

/-- Nothing has happened to the job yet, or it was cancelled. -/
def Dossier.Waiting (d : Dossier) : Prop :=
  d.status = .pending ∧ d.attemptCount = 0 ∨ d.status = .cancelled

/-- The dossier of a new job. -/
def newDossier (job : Job) : Dossier := ⟨job.wire, .pending, 0⟩

lemma waiting_newDossier (job : Job) : (newDossier job).Waiting := Or.inl ⟨rfl, rfl⟩

namespace FSM

variable {f f' : FSM} {id : String} {id' : String} {cmd : Command}

/-- The dossier of a stored job. -/
def dossier (f : FSM) (id : String) : Option Dossier :=
  (f.jobs.lookup id).map fun job => ⟨job, f.statusOf id, f.attemptsOf id⟩

lemma dossier_eq_some {d : Dossier} (h : f.dossier id = some d) :
    f.jobs.lookup id = some d.job ∧ f.statusOf id = d.status ∧ f.attemptsOf id = d.attemptCount := by
  obtain ⟨job, hjob, rfl⟩ := Option.map_eq_some_iff.mp h
  exact ⟨hjob, rfl, rfl⟩

lemma dossier_of_lookup {job : Job} (h : f.jobs.lookup id = some job) :
    f.dossier id = some ⟨job, f.statusOf id, f.attemptsOf id⟩ := by
  rw [dossier, h]
  rfl

lemma dossier_eq_none_iff : f.dossier id = none ↔ f.jobs.lookup id = none := by
  rw [dossier, Option.map_eq_none_iff]

lemma lookup_of_dossier (h : f'.dossier id = f.dossier id) :
    f'.jobs.lookup id = f.jobs.lookup id := by
  have hmap : ∀ f : FSM, f.jobs.lookup id = (f.dossier id).map Dossier.job := by
    intro f
    rw [dossier, Option.map_map]
    simp [Function.comp_def]
  rw [hmap, hmap, h]

/-- The same job and the same execution state. -/
lemma dossier_congr (hjobs : f'.jobs.lookup id = f.jobs.lookup id)
    (hstate : f'.executionStates.lookup id = f.executionStates.lookup id) :
    f'.dossier id = f.dossier id := by
  rw [dossier, dossier, hjobs, statusOf, statusOf, attemptsOf, attemptsOf, hstate]

lemma dossier_createJob (f : FSM) (faults : ColdFaults) (job : Job) (id : String) :
    (f.apply faults { type := .createJob, job := some job }).1.dossier id
      = if id = job.id then some (newDossier job) else f.dossier id := by
  rw [apply_createJob]
  by_cases hid : id = job.id
  · subst hid
    simp [dossier, statusOf, attemptsOf, newDossier, newExecutionState]
  · rw [if_neg hid]
    exact dossier_congr (by simp [hid]) (by simp [hid])

lemma dossier_deleteJob (f : FSM) (faults : ColdFaults) {id : String} (hid : id ≠ "") (id' : String) :
    (f.apply faults { type := .deleteJob, id := id }).1.dossier id'
      = if id' = id then none else f.dossier id' := by
  rw [apply_deleteJob _ _ hid]
  by_cases hid' : id' = id
  · subst hid'
    simp [dossier]
  · rw [if_neg hid']
    exact dossier_congr (by simp [hid']) (by simp [hid'])

/-- A command about another job. -/
lemma dossier_of_other (hjobs : cmd.LeavesJobs) (hsubject : cmd.subject = some id') (hne : id ≠ id')
    (f : FSM) (faults : ColdFaults) : (f.apply faults cmd).1.dossier id = f.dossier id := by
  have hother : cmd.subject ≠ some id := fun h => hne (Option.some.inj (h.symm.trans hsubject))
  refine dossier_congr ?_ (lookup_apply_of_subject_ne hother faults f)
  rw [(sameJobs_apply hjobs f faults).jobs]

lemma dossier_slotCommand (h : IsSlotCommand cmd) (f : FSM) (faults : ColdFaults) (id : String) :
    (f.apply faults cmd).1.dossier id = f.dossier id := by
  refine dossier_congr ?_ ?_
  · rw [(sameJobs_apply h.leavesJobs f faults).jobs]
  · rw [h.executionStates]

/-- A status update for an id without a job has no place to show. -/
lemma dossier_of_lookup_eq_none (hjobs : cmd.LeavesJobs) (hsubject : cmd.subject = some id')
    (hnone : f.jobs.lookup id' = none) (faults : ColdFaults) (id : String) :
    (f.apply faults cmd).1.dossier id = f.dossier id := by
  by_cases hid : id = id'
  · subst hid
    rw [dossier_eq_none_iff.mpr hnone, dossier_eq_none_iff,
      (sameJobs_apply hjobs f faults).jobs, hnone]
  · exact dossier_of_other hjobs hsubject hid f faults

/-- Pruning concerns neither status nor attempt count. -/
lemma dossier_attemptPrune (f : FSM) (faults : ColdFaults) (sc : StatusCommand)
    (kept : List ExecutionAttempt) (id : String) :
    (f.apply faults (attemptPrune sc kept)).1.dossier id = f.dossier id := by
  have hjobs : (attemptPrune sc kept).LeavesJobs := by simp [Command.LeavesJobs, attemptPrune]
  by_cases hid : id = sc.jobID
  · subst hid
    rw [dossier, dossier, (sameJobs_apply hjobs f faults).jobs, effect_attemptPrune,
      attemptsEffect]
    cases hstate : f.executionStates.lookup sc.jobID with
    | none => rfl
    | some state => simp [Effect.act, statusOf, attemptsOf, hstate]
  · exact dossier_of_other hjobs rfl hid f faults

end FSM

lemma called_applyCommand (n : Node) (thread : ℕ) (faults : ColdFaults) (cmd : Command) :
    (n.applyCommand thread faults cmd).called = n.called := by
  simp [Node.called, Node.applyCommand, Event.calledJob]

/-! ## Programs that leave all dossiers alone -/

/-- The same dossiers, and no webhooks started. -/
structure Undisclosed (n n' : Node) : Prop where
  dossier : ∀ id, n'.fsm.dossier id = n.fsm.dossier id
  called : n'.called = n.called

namespace Undisclosed

variable {n n' n'' : Node}

lemma refl (n : Node) : Undisclosed n n := ⟨fun _ => rfl, rfl⟩

lemma trans (h : Undisclosed n n') (h' : Undisclosed n' n'') : Undisclosed n n'' :=
  ⟨fun id => (h'.dossier id).trans (h.dossier id), h'.called.trans h.called⟩

lemma lookup (h : Undisclosed n n') (id : String) : n'.fsm.jobs.lookup id = n.fsm.jobs.lookup id :=
  lookup_of_dossier (h.dossier id)

/-- A step whose command leaves the dossiers alone. -/
lemma handle {P : Command → Prop} {β : Type} {a : Act β} (ha : Quiet P β a)
    (hP : ∀ (f : FSM) (faults : ColdFaults) (cmd : Command) (id : String), P cmd →
      (f.apply faults cmd).1.dossier id = f.dossier id) (thread : ℕ) (e : Env) (n : Node) :
    Undisclosed n (ScheduledDb.handle thread β a e n).1 := by
  refine ⟨fun id => ?_, called_handle ha e n⟩
  refine handle_keeps (I := fun f => f.dossier id = n.fsm.dossier id) thread rfl fun cmd hcmd => ?_
  exact hP n.fsm e.faults cmd id ((Store.Issues.of_quiet ha).of_command hcmd)

end Undisclosed

section Frame

variable {thread : ℕ} {guard : ∀ β : Type, Act β → Env → Node → Prop} {n : Node}

/-- Programs whose commands leave the dossiers alone. -/
lemma wpWith_undisclosed {P : Command → Prop} {α : Type} {p : Program Act α} (hp : All (Quiet P) p)
    (hP : ∀ (f : FSM) (faults : ColdFaults) (cmd : Command) (id : String), P cmd →
      (f.apply faults cmd).1.dossier id = f.dossier id) (n : Node) :
    wpWith (demonic (handle thread) guard) p (fun _ => Undisclosed n) n :=
  hp.invariant (fun _ e n' ha _ hn' => hn'.trans (Undisclosed.handle ha hP thread e n'))
    (Undisclosed.refl n)

/-- The queue writes slots only. -/
lemma wpWith_slotCommands {α : Type} {p : Program Act α} (hp : All (Quiet IsSlotCommand) p)
    (n : Node) : wpWith (demonic (handle thread) guard) p (fun _ => Undisclosed n) n :=
  wpWith_undisclosed hp (fun f faults _ id hcmd => dossier_slotCommand hcmd f faults id) n

end Frame

/-! ## An execution -/

namespace ExecutionManager

variable {thread : ℕ} {n : Node}

/-- The dossiers of other jobs. -/
def LeavesOthers (id : String) (n n' : Node) : Prop :=
  ∀ id', id' ≠ id → n'.fsm.dossier id' = n.fsm.dossier id'

/-- An execution touches no dossier but its own. -/
lemma wp_execute_others {ok : Env → Prop} (em : ExecutionManager) (job : Job) (n : Node) :
    wp (handle thread) ok (em.execute job) (fun _ => LeavesOthers job.id n) n := by
  let P : Command → Prop := fun cmd => cmd.LeavesJobs ∧ cmd.subject = some job.id
  have hissues : All (Issues P) (em.execute job) := by
    have hwebhook : Issues P _ (.executeWebhook job) := trivial
    refine em.all_execute (P := P) (fun sc hsc => ⟨attemptRecord_leavesJobs sc, ?_⟩)
      (fun _ ha => Store.Issues.of_quiet (Store.Detached.quiet ha)) hwebhook
      fun sc hsc => ⟨statusUpdate_leavesJobs sc, ?_⟩
    · simpa [Command.subject, attemptRecord] using hsc
    · simpa [Command.subject, statusUpdate] using hsc
  refine Store.wpWith_issues (I := fun f => ∀ id', id' ≠ job.id → f.dossier id' = n.fsm.dossier id')
    (fun f faults cmd hcmd hf id' hid' => ?_) hissues fun _ _ => rfl
  rw [dossier_of_other hcmd.1 hcmd.2 hid' f faults]
  exact hf id' hid'

/-- An execution would start the webhook: the status allows it, and an attempt is left. -/
def Starts (em : ExecutionManager) (d : Dossier) : Prop :=
  StatusTracker.executable d.status = .ok true ∧ d.attemptCount < em.maxAttempts

/-- The status of a job whose webhook call has ended so. -/
def ended (job : Job) (outcome : WebhookOutcome) : JobStatus :=
  if (webhookResult job outcome).2.2 = none then .completed else .failed

variable {ok : Env → Prop} (em : ExecutionManager) {job : Job} {d : Dossier}

/-- Otherwise it does nothing. -/
lemma wp_execute_idle (hd : n.fsm.dossier job.id = some d) (h : ¬ em.Starts d) :
    wp (handle thread) ok (em.execute job) (fun _ n' => n' = n) n := by
  obtain ⟨-, hstatus, hattempts⟩ := dossier_eq_some hd
  rw [Starts, ← hstatus, ← hattempts] at h
  refine wp_bind.mpr (wp_canExecute ?_)
  match hexec : executable (n.fsm.statusOf job.id) with
  | .error err => exact rfl
  | .ok false => exact rfl
  | .ok true =>
    refine wp_bind.mpr (wp_nextAttempt (wp_ite.mpr ⟨fun _ => rfl, fun hleft => ?_⟩))
    exact absurd ⟨hexec, by omega⟩ h

/-- How an attempt ends, on a stable leader: with the status that the call leads to. -/
lemma wp_callWebhook_ended (hok : ∀ e, ok e → e.Stable) (attemptNum : ℤ)
    (hstatus : n.fsm.statusOf job.id = .inProgress) :
    wp (handle thread) ok (em.callWebhook job attemptNum)
      (fun _ n' => n'.called = n.called ++ [job] ∧
        n'.fsm.attemptsOf job.id = n.fsm.attemptsOf job.id ∧
        ∃ e, ok e ∧ n'.fsm.statusOf job.id = ended job e.webhook) n := by
  simp only [callWebhook, perform_bind, wp_step]
  intro start _ outcome houtcome stop _
  have hmark : ∀ (op : MarkOp) (n1 : Node), op.status ≠ .inProgress →
      op.status = ended job outcome.webhook → n1.fsm.statusOf job.id = .inProgress →
      validateStateTransition .inProgress op.status = none →
      wp (handle thread) ok (op.call em.statusTracker job.id) (fun _ n' =>
        n'.fsm.attemptsOf job.id = n1.fsm.attemptsOf job.id ∧
        ∃ e, ok e ∧ n'.fsm.statusOf job.id = ended job e.webhook) n1 := by
    intro op n1 hop hended hn1 hvalid
    refine wp_mono ((MarkOp.wp_call em.statusTracker op job.id).guarded
      fun _ e _ he => hok e he) fun _ n' h' => ⟨h'.2.attemptsOf hop job.id, outcome, houtcome, ?_⟩
    rw [h'.2.statusOf (by rwa [hn1]), hended]
  have hstatus1 : (n.record thread (.webhook job)).fsm.statusOf job.id = .inProgress := hstatus
  have hcalled : ∀ {p : Program Act (Option String)}, All (Detached fun _ => True) p →
      wp (handle thread) ok p (fun _ n' => n'.called = n.called ++ [job])
        (n.record thread (.webhook job)) := fun hp =>
    wp_mono (wpWith_called (Store.quiet_of_detached hp) _) fun _ n' h' => by rw [h', called_record]
  simp only [handle]
  cases herr : (webhookResult job outcome.webhook).2.2 with
  | some err =>
    refine wpWith_and (hcalled
      (all_finishFailed (fun _ _ => trivial) (fun _ _ _ => trivial) em _ _ err))
      (wp_bind.mpr (wp_getStatus hstatus1 fun state hstate =>
        wp_ite.mpr ⟨fun hoff => ?_, fun _ => ?_⟩))
    · simp [hstate] at hoff
    · refine wp_seq (hmark (.failed _) _ (by simp [MarkOp.status]) ?_
        hstatus1 rfl) fun _ _ h' => h'
      simp [MarkOp.status, ended, herr]
  | none =>
    refine wpWith_and (hcalled
      (all_finishSucceeded (fun _ _ => trivial) (fun _ _ _ => trivial) em _ _))
      (wp_bind.mpr (wp_getStatus hstatus1 fun state hstate =>
        wp_ite.mpr ⟨fun hoff => ?_, fun _ => ?_⟩))
    · simp [hstate] at hoff
    · refine hmark (.completed _) _ (by simp [MarkOp.status]) ?_ hstatus1 rfl
      simp [MarkOp.status, ended, herr]

/-- **An execution that starts the webhook** counts as an attempt, and the job has the status that the
call leads to. -/
lemma wp_execute_started (hok : ∀ e, ok e → e.Stable) (hd : n.fsm.dossier job.id = some d)
    (h : em.Starts d) :
    wp (handle thread) ok (em.execute job)
      (fun _ n' => n'.called = n.called ++ [job] ∧ ∃ e, ok e ∧
        n'.fsm.dossier job.id = some ⟨d.job, ended job e.webhook, d.attemptCount + 1⟩) n := by
  obtain ⟨hjob, hstatus, hattempts⟩ := dossier_eq_some hd
  rw [Starts, ← hstatus, ← hattempts] at h
  refine wp_mono (wpWith_and (Store.wpWith_leavesJobs (em.issues_execute job) n)
    (?_ : wp (handle thread) ok (em.execute job)
      (fun _ n' => n'.called = n.called ++ [job] ∧
        n'.fsm.attemptsOf job.id = n.fsm.attemptsOf job.id + 1 ∧
        ∃ e, ok e ∧ n'.fsm.statusOf job.id = ended job e.webhook) n)) ?_
  rotate_left
  · rintro _ n' ⟨hsame, hcalled, hcount, e, he, hended⟩
    refine ⟨hcalled, e, he, ?_⟩
    rw [dossier, hsame.jobs, hjob, hcount, hended, hattempts]
    rfl
  have hvalid : validateStateTransition (n.fsm.statusOf job.id) .inProgress = none := by
    have hexec := h.1
    generalize n.fsm.statusOf job.id = status at hexec ⊢
    cases status <;> first | rfl | cases hexec
  refine wp_bind.mpr (wp_canExecute ?_)
  rw [h.1]
  refine wp_bind.mpr (wp_nextAttempt (wp_ite.mpr ⟨fun hover => ?_, fun _ => wp_bind.mpr ?_⟩))
  · have := h.2
    omega
  refine wp_mono (wpWith_and
    ((MarkOp.wp_call em.statusTracker (.inProgress em.nodeID) job.id).guarded
      fun _ e _ he => hok e he)
    (wpWith_called (Store.quiet_of_detached (P := fun _ => True)
      (all_mark em.statusTracker all_done fun _ => trivial)) n)) ?_
  rintro _ n1 ⟨⟨rfl, hafter⟩, hcalled⟩
  refine wp_mono (em.wp_callWebhook_ended hok _ (hafter.statusOf hvalid)) ?_
  rintro _ n' ⟨hcalled', hattempts, hended⟩
  exact ⟨by rw [hcalled', hcalled], hattempts.trans (hafter.attemptsOf_inProgress hvalid), hended⟩

end ExecutionManager

/-! ## Cancellation and housekeeping -/

/-- The node differs in execution states and the trace only. -/
structure Aside (n n' : Node) : Prop where
  queue : n'.queue = n.queue
  slots : n.fsm.SameSlots n'.fsm
  jobs : n'.fsm.jobs = n.fsm.jobs

lemma Aside.refl (n : Node) : Aside n n := ⟨rfl, ⟨rfl, rfl, rfl⟩, rfl⟩

lemma Aside.trans {n n' n'' : Node} (h : Aside n n') (h' : Aside n' n'') : Aside n n'' where
  queue := h'.queue.trans h.queue
  slots := ⟨h'.slots.slots.trans h.slots.slots, h'.slots.coldSlotMeta.trans h.slots.coldSlotMeta,
    h'.slots.coldStore.trans h.slots.coldStore⟩
  jobs := h'.jobs.trans h.jobs

lemma wpWith_aside {thread : ℕ} {guard : ∀ β : Type, Act β → Env → Node → Prop} {α : Type}
    {p : Program Act α} (hp : All Sidelined p) (n : Node) :
    wpWith (demonic (handle thread) guard) p (fun _ => Aside n) n := by
  refine hp.invariant (fun a e n' ha _ hn' => hn'.trans ?_) (.refl n)
  cases a with
  | raftApply cmd =>
    simp only [handle]
    split_ifs
    · exact ⟨rfl, sameSlots_apply ha.2 n'.fsm e.faults,
        (sameJobs_apply ha.1 n'.fsm e.faults).jobs⟩
    · exact .refl n'
  | queue f => exact ha.elim
  | _ => exact ⟨rfl, ⟨rfl, rfl, rfl⟩, rfl⟩

/-- Programs about execution states. -/
lemma sidelined_of_detached {P : Command → Prop} {α : Type} {p : Program Act α}
    (hp : All (Detached P) p) (hP : ∀ cmd, P cmd → cmd.LeavesJobs ∧ cmd.LeavesSlots) :
    All Sidelined p := by
  refine hp.mono fun a ha => ?_
  cases a with
  | raftApply cmd => exact hP cmd ha
  | queue f => exact ha
  | _ => trivial

namespace StatusTracker

variable {thread : ℕ} {n : Node}

/-- A command that updates a status. -/
def IsStatusUpdate (cmd : Command) : Prop := ∃ sc, cmd = FSM.statusUpdate sc

lemma IsStatusUpdate.leaves {cmd : Command} (h : IsStatusUpdate cmd) :
    cmd.LeavesJobs ∧ cmd.LeavesSlots := by
  obtain ⟨sc, rfl⟩ := h
  exact ⟨statusUpdate_leavesJobs sc, by simp [Command.LeavesSlots, statusUpdate]⟩

/-- A job is cancelled, and nothing else happens. -/
structure Cancels (id : String) (n n' : Node) : Prop where
  aside : Aside n n'
  called : n'.called = n.called
  dossier : ∀ id', n'.fsm.dossier id'
    = if id' = id then (n.fsm.dossier id).map fun d => { d with status := .cancelled }
      else n.fsm.dossier id'

/-- **Cancelling a job that waits.** -/
lemma wp_markCancelled {ok : Env → Prop} (hok : ∀ e, ok e → Env.Stable e) (st : StatusTracker)
    (id reason : String) (hwaiting : ∀ d, n.fsm.dossier id = some d → d.Waiting) :
    wp (handle thread) ok (st.markCancelled id reason)
      (fun r n' => r = none ∧ Cancels id n n') n := by
  have hdetached : All (Detached IsStatusUpdate) (st.markCancelled id reason) :=
    all_mark st all_done fun _ => ⟨_, rfl⟩
  refine wp_mono (wpWith_and
    ((MarkOp.wp_call st (.cancelled reason) id).guarded fun _ e _ he => hok e he)
    (wpWith_and (wpWith_aside (sidelined_of_detached hdetached fun _ => IsStatusUpdate.leaves) n)
      (wpWith_called (Store.quiet_of_detached hdetached) n))) ?_
  rintro _ n' ⟨⟨hnone, hafter⟩, haside, hcalled⟩
  refine ⟨hnone, haside, hcalled, fun id' => ?_⟩
  have hattempts := hafter.attemptsOf (by simp [MarkOp.status]) id
  have hjobs := hafter.jobs
  obtain ⟨nb, sc, prev, faults, hbefore, rfl, hstatus, rfl⟩ := hafter
  obtain rfl : nb = n := hbefore
  rw [fsm_notified, Node.applyCommand_fsm] at hattempts hjobs ⊢
  split_ifs with hid
  · subst hid
    rw [dossier, hjobs, hattempts, dossier, Option.map_map]
    refine Option.map_congr fun job hjob => ?_
    have hold : nb.fsm.statusOf sc.jobID = .pending ∨ nb.fsm.statusOf sc.jobID = .cancelled :=
      (hwaiting _ (dossier_of_lookup hjob)).imp_left And.left
    have hnew : (nb.fsm.apply faults (statusUpdate sc)).1.statusOf sc.jobID = .cancelled := by
      rw [statusOf_statusUpdate]
      split_ifs with hvalid
      · exact hstatus
      · rcases hold with hpending | hcancelled
        · refine absurd ⟨rfl, ?_⟩ hvalid
          rw [hpending, hstatus]
          rfl
        · exact hcancelled
    simp [hnew]
  · exact dossier_of_other (statusUpdate_leavesJobs sc) rfl hid nb.fsm faults

/-- No live job is in progress, so the timeouts of others do not matter. -/
lemma wp_checkTimeouts (st : StatusTracker) (timeout : Duration)
    (hwaiting : ∀ id d, n.fsm.dossier id = some d → d.Waiting) :
    wp (handle thread) Env.Stable (st.checkTimeouts timeout) (fun _ => Undisclosed n) n := by
  simp only [checkTimeouts, perform_bind, wp_step, wp_ite, wp_bind]
  refine fun e he => ⟨fun _ e1 _ e2 _ => ?_, fun hno => absurd he.1 hno⟩
  simp only [handle]
  refine wpWith_mono demonic_mono (wpWith_foldEach demonic_mono (I := fun _ => Undisclosed n) _
    (fun entry hentry timedOut n' hn' => ?_) (Undisclosed.refl n)) fun _ _ h => h
  rw [(e1.order_perm _ _).mem_iff] at hentry
  have hstate := (Finmap.mem_sortedEntries n.fsm.executionStates entry.1 entry.2).mp hentry
  refine wpWith_ite.mpr ⟨fun hlate => ?_, fun _ => hn'⟩
  have hgone : n.fsm.jobs.lookup entry.1 = none := by
    by_contra hlive
    obtain ⟨job, hjob⟩ := Option.ne_none_iff_exists'.mp hlive
    have hwait := hwaiting entry.1 _ (dossier_of_lookup hjob)
    simp [Dossier.Waiting, statusOf_of_lookup hstate, hlate.1] at hwait
  refine wpWith_bind.mpr (wp_applyStatusCommand fun faults => ?_)
  have hdone : Undisclosed n (n'.applyCommand thread faults
      (statusUpdate { jobID := entry.1, status := .timeout, timestamp := e2.now })) := by
    refine hn'.trans ⟨fun id => ?_, called_applyCommand ..⟩
    refine dossier_of_lookup_eq_none (statusUpdate_leavesJobs _) rfl ?_ faults id
    rw [hn'.lookup, hgone]
  refine wpWith_seq demonic_mono (wpWith_undisclosed (P := fun _ => False)
    (Store.quiet_of_detached (all_notifyCallback st .inProgress .timeout)) (fun _ _ _ _ h => h.elim)
    _) fun _ n'' h'' => hdone.trans h''

/-- A command that prunes attempts. -/
def IsPrune (cmd : Command) : Prop := ∃ sc kept, cmd = FSM.attemptPrune sc kept

lemma IsPrune.leaves {cmd : Command} (h : IsPrune cmd) : cmd.LeavesJobs ∧ cmd.LeavesSlots := by
  obtain ⟨sc, kept, rfl⟩ := h
  exact ⟨by simp [Command.LeavesJobs, attemptPrune], by simp [Command.LeavesSlots, attemptPrune]⟩

lemma detached_pruneOldAttempts (retention : Duration) :
    All (Detached IsPrune) (pruneOldAttempts retention) := by
  simp only [pruneOldAttempts, perform_bind, all_step, all_ite]
  refine ⟨trivial, fun _ => ⟨fun _ => ⟨trivial, fun states => ⟨trivial, fun now => ?_⟩⟩,
    fun _ => trivial⟩⟩
  have hentry : ∀ cutoffTime entry, All (Detached IsPrune) (pruneAttempts cutoffTime entry) := by
    intro cutoffTime entry
    refine all_ite.mpr ⟨fun _ => ⟨trivial, fun now => ?_⟩, fun _ => trivial⟩
    exact (all_applyStatusCommand ⟨_, _, rfl⟩).bind fun _ => trivial
  exact (all_forEach fun entry _ => hentry _ entry).bind fun _ => trivial

lemma wp_pruneOldAttempts {ok : Env → Prop} (retention : Duration) (n : Node) :
    wp (handle thread) ok (pruneOldAttempts retention) (fun _ => Undisclosed n) n := by
  refine wpWith_undisclosed (Store.quiet_of_detached (detached_pruneOldAttempts retention))
    (fun f faults cmd id hcmd => ?_) n
  obtain ⟨sc, kept, rfl⟩ := hcmd
  exact dossier_attemptPrune f faults sc kept id

end StatusTracker

end ScheduledDb
