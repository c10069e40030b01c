import ScheduledDb.Core.Timer
import ScheduledDb.Slots.Grants
import ScheduledDb.Slots.Worker

/-!
# What a cancellation is worth

The worker runs as thread `0`; clients cancel, create and delete jobs beside it.  A job counts as
cancelled from the moment the state machine accepts a `cancelled` command for it until a client
creates it anew.  That the worker creates a recurring job anew does not end a cancellation; but it
makes the job `pending` again, and so `webhook_after_cancel` shows a webhook call for a cancelled
job.

`cancel_final` says what has to be avoided.  Besides the reschedule these are two races: a job that
is deleted while the worker holds a copy of it has no status any more and passes for `pending`, and a
cancellation between the grant of an attempt and its webhook call comes too late.
-/

namespace ScheduledDb

open Program IdealTimer Function Config Command

/-- A command that asks for the transition of the job into `cancelled`. -/
def Command.isCancel (jobID : String) (cmd : Command) : Bool :=
  match cmd.type, cmd.statusCommand with
  | .updateJobStatus, some sc => sc.jobID = jobID && sc.status = .cancelled
  | _, _ => false

/-- A command that creates the job. -/
def Command.creates (jobID : String) (cmd : Command) : Bool :=
  match cmd.type, cmd.job with
  | .createJob, some job => job.id = jobID
  | _, _ => false

/-- What an event does to a job's cancellation. -/
def cancelStep (jobID : String) (cancelled : Bool) : ℕ × Event → Bool
  | (t, .applied _ cmd response) =>
    if response.isError then cancelled
    else if cmd.isCancel jobID then true
    else if cmd.creates jobID && t ≠ workerThread then false
    else cancelled
  | _ => cancelled

/-- The job has been cancelled, and no client has created it since. -/
def cancelled (jobID : String) (trace : List (ℕ × Event)) : Bool :=
  trace.foldl (cancelStep jobID) false

@[simp] lemma cancelled_snoc (jobID : String) (trace : List (ℕ × Event)) (x : ℕ × Event) :
    cancelled jobID (trace ++ [x]) = cancelStep jobID (cancelled jobID trace) x := by
  simp [cancelled]

/-- No webhook call was started for the job while it was cancelled. -/
def CancelFinal (jobID : String) (trace : List (ℕ × Event)) : Prop :=
  ∀ pre t job post, trace = pre ++ (t, .webhook job) :: post → job.id = jobID →
    cancelled jobID pre = false

variable {jobID : String} {cmd : Command} {s n s' : Node} {l : ℕ → ℕ} {g tid : ℕ} {ev : Event}

lemma CancelFinal.snoc {trace : List (ℕ × Event)} {x : ℕ × Event} (h : CancelFinal jobID trace)
    (hx : x.2.isWebhook jobID = true → cancelled jobID trace = false) :
    CancelFinal jobID (trace ++ [x]) := by
  intro pre t job post heq hid
  rcases snoc_eq_append_cons.mp heq with ⟨_, rfl, rfl⟩ | ⟨post', _, htrace⟩
  · exact hx (by simp [Event.isWebhook, hid])
  · exact h pre t job post' htrace hid

/-- `CancelFinal`, decided in one pass over the trace. -/
def cancelFinalFrom (jobID : String) : Bool → List (ℕ × Event) → Bool
  | _, [] => true
  | flag, x :: rest =>
    (!x.2.isWebhook jobID || !flag) && cancelFinalFrom jobID (cancelStep jobID flag x) rest

lemma cancelFinalFrom_iff (jobID : String) (trace : List (ℕ × Event)) : ∀ flag,
    cancelFinalFrom jobID flag trace = true ↔
      ∀ pre t job post, trace = pre ++ (t, .webhook job) :: post → job.id = jobID →
        pre.foldl (cancelStep jobID) flag = false := by
  induction trace with
  | nil =>
    intro flag
    simp [cancelFinalFrom]
  | cons x rest ih =>
    intro flag
    rw [cancelFinalFrom, Bool.and_eq_true, ih]
    constructor
    · rintro ⟨hhead, htail⟩ pre t job post heq hid
      cases pre with
      | nil =>
        obtain ⟨rfl, _⟩ := List.cons.inj heq
        simpa [Event.isWebhook, hid] using hhead
      | cons y pre =>
        obtain ⟨rfl, hrest⟩ := List.cons.inj heq
        exact htail pre t job post hrest hid
    · intro h
      refine ⟨?_, fun pre t job post heq hid => h (x :: pre) t job post (by rw [heq]; rfl) hid⟩
      obtain ⟨t, ev⟩ := x
      cases ev with
      | webhook job =>
        by_cases hid : job.id = jobID
        · have hflag : flag = false := h [] t job rest rfl hid
          simp [hflag]
        · simp [Event.isWebhook, hid]
      | _ => rfl

instance (jobID : String) (trace : List (ℕ × Event)) : Decidable (CancelFinal jobID trace) :=
  decidable_of_iff _ (cancelFinalFrom_iff jobID trace false)

/-! ## The state machine and a cancelled job -/

namespace FSM

variable {cmd : Command} {faults : ColdFaults} {f : FSM} {jobID : String}

lemma creates_of_putJob {job : Job} (h : f.effect faults cmd.wire = .putJob job) :
    cmd.creates job.id = true := by
  obtain ⟨htype, hsubject⟩ := subject_of_putJob h
  simp only [subject, htype, Option.map_eq_some_iff] at hsubject
  obtain ⟨job', hjob', hid⟩ := hsubject
  simp [creates, htype, hjob', hid]

/-- A job that was cancelled stays so, as long as it is there and not created anew. -/
lemma statusOf_apply_of_cancelled
    (h : (f.jobs.lookup jobID).isSome = true → f.statusOf jobID = .cancelled)
    (hcreates : cmd.creates jobID = false) (faults : ColdFaults) :
    ((f.apply faults cmd).1.jobs.lookup jobID).isSome = true →
      (f.apply faults cmd).1.statusOf jobID = .cancelled := by
  rw [apply_fst]
  cases heffect : f.effect faults cmd.wire with
  | putJob job =>
    have hne : jobID ≠ job.id := by
      rintro rfl
      rw [creates_of_putJob heffect] at hcreates
      cases hcreates
    simpa [Effect.act, statusOf, hne] using h
  | dropJob id =>
    by_cases hid : jobID = id
    · subst hid
      simp [Effect.act]
    · simpa [Effect.act, statusOf, hid] using h
  | putState id state =>
    intro hjob
    have hold : f.statusOf jobID = .cancelled := h hjob
    by_cases hid : jobID = id
    · subst hid
      have hnew : ((Effect.putState jobID state).act faults f).statusOf jobID = state.status := by
        simp [Effect.act, statusOf]
      rw [hnew, status_of_putState_of_isOver heffect (by rw [hold]; rfl), hold]
    · simpa [Effect.act, statusOf, hid] using hold
  | _ => exact h

/-- An accepted cancellation makes the job's status `cancelled`. -/
lemma statusOf_apply_isCancel (hcancel : cmd.isCancel jobID = true)
    (haccepted : (f.apply faults cmd).2.isError = false) :
    validateStateTransition (f.statusOf jobID) .cancelled = none ∧
      (f.apply faults cmd).1.statusOf jobID = .cancelled := by
  unfold isCancel at hcancel
  split at hcancel
  · next sc htype hsc =>
      simp only [Bool.and_eq_true, decide_eq_true_eq] at hcancel
      obtain ⟨rfl, hstatus⟩ := hcancel
      rw [apply_eq_statusUpdate htype hsc] at haccepted ⊢
      have hvalid := (statusUpdate_accepted_iff faults f sc).mp haccepted
      rw [statusOf_statusUpdate, if_pos ⟨rfl, hvalid⟩]
      exact ⟨by rw [← hstatus]; exact hvalid, hstatus⟩
  · cases hcancel

/-- Creating a job is never refused. -/
lemma creates_accepted (hcreates : cmd.creates jobID = true) (faults : ColdFaults) :
    (f.apply faults cmd).2.isError = false := by
  unfold creates at hcreates
  split at hcreates
  · next job htype hjob =>
      simp [apply, applyCommandInternal, wire, htype, hjob, applyCreateJob,
        Response.isError]
  · cases hcreates

end FSM

lemma Command.isGrant_eq_false_of_isCancel (h : cmd.isCancel jobID = true) :
    cmd.isGrant jobID = false := by
  unfold isCancel at h
  split at h
  · next sc htype hsc =>
      simp only [Bool.and_eq_true, decide_eq_true_eq] at h
      simp [isGrant, htype, hsc, h.2]
  · cases h

/-! ## Who takes part -/

/-- What clients do beside the worker. -/
inductive Client where
  | cancel (st : StatusTracker) (jobID reason : String)
  | create (job : Job)
  | delete (jobID : String)
  | idle

def Client.program : Client → Program Act Unit
  | cancel st jobID reason => st.markCancelled jobID reason >>= fun _ => pure ()
  | create job => Store.createJob PersistentSlotQueue.jobEventHandler job >>= fun _ => pure ()
  | delete jobID => Store.deleteJob PersistentSlotQueue.jobEventHandler jobID >>= fun _ => pure ()
  | idle => pure ()

/-- The worker and its clients. -/
def workerAndClients (w : Worker) (ticks : List Worker.Tick) (clients : ℕ → Client) (t : ℕ) :
    Program Act Unit :=
  if t = workerThread then w.run ticks else (clients t).program

lemma Client.credit_program (jobID : String) (client : Client) (g : ℕ) :
    wpWith (credit jobID) client.program (fun _ _ => True) g := by
  have hframe : ∀ p : Program Act (Option String),
      All (Quiet fun cmd => cmd.isGrant jobID = false) p →
      wpWith (credit jobID) (p >>= fun _ => pure ()) (fun _ _ => True) g :=
    fun p hp => wpWith_bind.mpr (credit_frame hp fun _ => trivial)
  cases client with
  | cancel st id reason =>
    refine hframe _ (Store.quiet_of_detached (StatusTracker.all_mark _ trivial fun now => ?_))
    simp [isGrant_statusUpdate]
  | create job => exact hframe _ (Store.all_createJob (all_jobEventHandler_isGrant jobID) rfl)
  | delete id => exact hframe _ (Store.all_deleteJob (all_jobEventHandler_isGrant jobID) rfl)
  | idle => trivial

namespace Worker

lemma credit_processJob (w : Worker) (jobID : String) (now : ℤ) (round : Round) (job : Job)
    (g : ℕ) : wpWith (credit jobID) (w.processJob now round job) (fun _ _ => True) g := by
  refine wpWith_ite.mpr ⟨fun _ => ?_, fun _ => trivial⟩
  exact wpWith_bind.mpr (wpWith_mono (credit_mono jobID)
    (w.executionManager.credit_execute jobID job g) fun _ _ _ => trivial)

lemma credit_processSlot (w : Worker) (jobID : String) (now : ℤ) (slot : Slot) (g : ℕ) :
    wpWith (credit jobID) (w.processSlot now slot) (fun _ _ => True) g := by
  refine wpWith_bind.mpr ?_
  refine wpWith_mono (credit_mono jobID) (wpWith_foldEach (credit_mono jobID)
    (I := fun _ _ => True) slot.jobs
    (fun job _ round g _ => w.credit_processJob jobID now round job g) trivial) ?_
  intro round g' _
  -- deleting and rescheduling grants nothing
  have hslot : ∀ cmd, PersistentSlotQueue.IsSlotCommand cmd → cmd.isGrant jobID = false :=
    fun _ hcmd => hcmd.isGrant_eq_false jobID
  refine wpWith_bind.mpr (credit_frame (all_forEach fun id _ => all_removeExecuted hslot rfl)
    fun _ => wpWith_bind.mpr (credit_frame (all_forEach fun job _ => all_reschedule hslot rfl)
      fun _ => trivial))

lemma credit_processLoop (w : Worker) (jobID : String) (now : ℤ) (left g : ℕ) :
    wpWith (credit jobID) (w.processLoop now left) (fun _ _ => True) g := by
  refine wpWith_processLoop (credit_mono jobID) (I := fun _ => True) (J := fun _ _ => True)
    (fun g _ => ?_) (fun slot g _ _ => w.credit_processSlot jobID now slot g) left trivial
  exact credit_frame (Store.quiet_mono PersistentSlotQueue.all_getNextSlot fun cmd hcmd =>
    hcmd.isGrant_eq_false jobID) fun _ => ⟨trivial, fun _ _ => trivial⟩

/-- **The worker calls webhooks on credit only.** -/
lemma credit_run (w : Worker) (jobID : String) (ticks : List Tick) (g : ℕ) :
    wpWith (credit jobID) (w.run ticks) (fun _ _ => True) g := by
  refine wpWith_forEach (credit_mono jobID) (I := fun _ => True) ticks (fun tick _ g _ => ?_)
    trivial
  cases tick with
  | slots => exact fun now => w.credit_processLoop jobID now 10 g
  | timeouts =>
    have hquiet : All (Quiet fun cmd => cmd.isGrant jobID = false) w.checkTimeouts := by
      simp only [checkTimeouts, perform_bind, all_step, all_ite]
      refine ⟨trivial, fun _ => ⟨fun _ => All.bind ?_ fun _ => trivial, fun _ => trivial⟩⟩
      refine Store.quiet_of_detached (StatusTracker.all_checkTimeouts _ _ fun sc hsc => ?_)
      simp [isGrant_statusUpdate, hsc]
    exact credit_frame hquiet fun _ => trivial

end Worker

lemma credit_workerAndClients (w : Worker) (ticks : List Worker.Tick) (clients : ℕ → Client)
    (jobID : String) (t g : ℕ) :
    wpWith (credit jobID) (workerAndClients w ticks clients t) (fun _ _ => True) g := by
  unfold workerAndClients
  exact wpWith_ite.mpr ⟨fun _ => w.credit_run jobID ticks g,
    fun _ => (clients t).credit_program jobID g⟩

/-! ## Runs -/

/-- What makes a cancellation final, step by step, for a run that starts in `n`:
* an `in_progress` command finds the job in the store and in a status that allows it;
* a cancellation is accepted only when every granted attempt has started its webhook call;
* the worker does not create the job anew while it is cancelled. -/
def CancelSafe (jobID : String) (n : Node) (c : Config Act Node) (tid : ℕ) (β : Type) (a : Act β)
    (_ : Env) : Prop :=
  match β, a with
  | _, .raftApply cmd =>
    (cmd.isGrant jobID = true → (c.state.fsm.jobs.lookup jobID).isSome = true ∧
      validateStateTransition (c.state.fsm.statusOf jobID) .inProgress = none) ∧
    (cmd.isCancel jobID = true →
      validateStateTransition (c.state.fsm.statusOf jobID) .cancelled = none →
      ((n.newEvents c.state).countP fun x => x.2.isGranted jobID)
        ≤ (n.newEvents c.state).countP fun x => x.2.isWebhook jobID) ∧
    (tid = workerThread → cmd.creates jobID = true →
      cancelled jobID (n.newEvents c.state) = false)
  | _, _ => True

/-- The invariant: so far every cancellation was final, and while the job is cancelled no granted
attempt is open and the job, if it is there, has the status `cancelled`. -/
structure CancelKept (jobID : String) (n s : Node) (l : ℕ → ℕ) : Prop where
  covered : Covered jobID n s l
  final : CancelFinal jobID (n.newEvents s)
  closed : cancelled jobID (n.newEvents s) = true → ∀ t, l t = 0
  status : cancelled jobID (n.newEvents s) = true →
    (s.fsm.jobs.lookup jobID).isSome = true → s.fsm.statusOf jobID = .cancelled

lemma Covered.newEvents_eq (h : Covered jobID n s l) : s.trace = n.trace ++ n.newEvents s := by
  obtain ⟨ev, hev, _⟩ := h
  rw [Node.newEvents, hev, List.drop_left]

lemma Covered.count_eq (h : Covered jobID n s l) (t : ℕ) :
    countOf (Event.isWebhook jobID) t (n.newEvents s) + l t
      = countOf (Event.isGranted jobID) t (n.newEvents s) := by
  obtain ⟨ev, hev, hcount⟩ := h
  rw [Node.newEvents, hev, List.drop_left]
  exact hcount t

/-- No more grants than calls: no thread has credit. -/
lemma Covered.eq_zero (h : Covered jobID n s l)
    (hle : ((n.newEvents s).countP fun x => x.2.isGranted jobID)
      ≤ (n.newEvents s).countP fun x => x.2.isWebhook jobID) (t : ℕ) : l t = 0 := by
  have heq := countOf_eq_of_countP_le (fun t => by have := h.count_eq t; omega) hle t
  have hcount := h.count_eq t
  omega

lemma Covered.newEvents_step (h : Covered jobID n s l) {ev : List (ℕ × Event)}
    (htrace : s'.trace = s.trace ++ ev) : n.newEvents s' = n.newEvents s ++ ev := by
  rw [Node.newEvents, htrace, h.newEvents_eq, List.append_assoc, List.drop_left]

/-- A step that is neither a call nor a grant opens no credit. -/
lemma Covered.eq_zero_step (h : Covered jobID n s l) (h' : Covered jobID n s' (update l tid g))
    (htrace : s'.trace = s.trace ++ [(tid, ev)]) (hwebhook : ev.isWebhook jobID = false)
    (hgranted : ev.isGranted jobID = false) (hzero : ∀ t, l t = 0) (t : ℕ) :
    update l tid g t = 0 := by
  have hcount := h.count_eq t
  have hcount' := h'.count_eq t
  rw [h.newEvents_step htrace, countOf_append, countOf_append, countOf_singleton,
    countOf_singleton, hwebhook, hgranted] at hcount'
  have ht := hzero t
  simp only [Bool.false_eq_true, false_and, if_false] at hcount'
  omega

/-- A step that leaves the state machine alone and does not bear on the cancellation. -/
lemma CancelKept.neutral (h : CancelKept jobID n s l) (hfsm : s'.fsm = s.fsm)
    (htrace : s'.trace = s.trace ++ [(tid, ev)]) (hcovered : Covered jobID n s' (update l tid g))
    (hstep : ∀ b, cancelStep jobID b (tid, ev) = b)
    (hwebhook : ev.isWebhook jobID = true → cancelled jobID (n.newEvents s) = false)
    (hgranted : ev.isGranted jobID = false) : CancelKept jobID n s' (update l tid g) := by
  have hevents := h.covered.newEvents_step htrace
  refine ⟨hcovered, ?_, ?_, ?_⟩
  · rw [hevents]
    exact h.final.snoc hwebhook
  · rw [hevents, cancelled_snoc, hstep]
    intro hflag
    refine h.covered.eq_zero_step hcovered htrace ?_ hgranted (h.closed hflag)
    by_contra hw
    rw [hwebhook (by simpa using hw)] at hflag
    cases hflag
  · rw [hevents, cancelled_snoc, hstep, hfsm]
    exact h.status

/-- A step without events. -/
lemma CancelKept.same (h : CancelKept jobID n s l) (tid : ℕ) (hfsm : s'.fsm = s.fsm)
    (htrace : s'.trace = s.trace ++ []) : CancelKept jobID n s' (update l tid (l tid)) := by
  have hcovered := h.covered.same tid htrace
  have hevents := h.covered.newEvents_step htrace
  rw [List.append_nil] at hevents
  rw [update_eq_self] at hcovered ⊢
  exact ⟨hcovered, by rw [hevents]; exact h.final, by rw [hevents]; exact h.closed,
    by rw [hevents, hfsm]; exact h.status⟩

/-- The step of a command. -/
lemma CancelKept.raftApply {c : Config Act Node} {e : Env} (h : CancelKept jobID n c.state l)
    (hsafe : CancelSafe jobID n c tid _ (.raftApply cmd) e)
    (hfsm : s'.fsm = (c.state.fsm.apply e.faults cmd).1) (htrace : s'.trace = c.state.trace ++
      [(tid, .applied c.state.fsm cmd (c.state.fsm.apply e.faults cmd).2)])
    (hcovered : Covered jobID n s' (update l tid g)) : CancelKept jobID n s' (update l tid g) := by
  obtain ⟨hgrant, hcancel, hcreate⟩ := hsafe
  have hevents := h.covered.newEvents_step htrace
  -- while the job is cancelled, no `in_progress` command comes
  have hnogrant : cancelled jobID (n.newEvents c.state) = true → cmd.isGrant jobID = false := by
    intro hflag
    by_contra hg
    obtain ⟨hjob, hvalid⟩ := hgrant (by simpa using hg)
    rw [h.status hflag hjob] at hvalid
    simp [validateStateTransition, validTransitions] at hvalid
  have hkeep : cancelled jobID (n.newEvents c.state) = true → cmd.creates jobID = false →
      (∀ t, update l tid g t = 0) ∧
        ((s'.fsm.jobs.lookup jobID).isSome = true → s'.fsm.statusOf jobID = .cancelled) := by
    intro hflag hcreates
    refine ⟨h.covered.eq_zero_step hcovered htrace rfl ?_ (h.closed hflag), ?_⟩
    · simp [Event.isGranted, hnogrant hflag]
    · rw [hfsm]
      exact FSM.statusOf_apply_of_cancelled (h.status hflag) hcreates e.faults
  have hboth : cancelled jobID (n.newEvents s') = true → (∀ t, update l tid g t = 0) ∧
      ((s'.fsm.jobs.lookup jobID).isSome = true → s'.fsm.statusOf jobID = .cancelled) := by
    intro hflag'
    rw [hevents, cancelled_snoc, cancelStep] at hflag'
    split_ifs at hflag' with herror hc hcr
    · refine hkeep hflag' ?_
      by_contra hcreates
      rw [FSM.creates_accepted (by simpa using hcreates)] at herror
      cases herror
    · obtain ⟨hvalid, hstatus⟩ := FSM.statusOf_apply_isCancel hc (by simpa using herror)
      refine ⟨h.covered.eq_zero_step hcovered htrace rfl ?_
        (h.covered.eq_zero (hcancel hc hvalid)), fun _ => ?_⟩
      · simp [Event.isGranted, isGrant_eq_false_of_isCancel hc]
      · rw [hfsm]
        exact hstatus
    · refine hkeep hflag' ?_
      by_contra hcreates
      have hcreates' : cmd.creates jobID = true := by simpa using hcreates
      have hworker : tid = workerThread := by simpa [hcreates'] using hcr
      rw [hcreate hworker hcreates'] at hflag'
      cases hflag'
  refine ⟨hcovered, ?_, fun hflag' => (hboth hflag').1, fun hflag' => (hboth hflag').2⟩
  rw [hevents]
  exact h.final.snoc fun hw => by cases hw

/-- Every step keeps cancellations final. -/
lemma cancel_sound (jobID : String) (n : Node) :
    ∀ (c : Config Act Node) (l : ℕ → ℕ) (tid : ℕ) {β : Type} (a : Act β) (e : Env)
      (Q : β → ℕ → Prop), StableLeader c tid β a e ∧ CancelSafe jobID n c tid β a e →
      CancelKept jobID n c.state l →
      (∀ t, wpWith (credit jobID) (c.threads t) (fun _ _ => True) (l t)) →
      credit jobID β a Q (l tid) →
      ∃ g, Q (handle tid β a e c.state).2 g ∧
        CancelKept jobID n (handle tid β a e c.state).1 (update l tid g) := by
  intro c l tid β a e Q hcond hkept hlocal hT
  have hcommits : Commits c tid β a e := by
    cases a with
    | raftApply cmd => exact hcond.1.2
    | _ => trivial
  have hallowed : GrantsAllowed jobID c tid β a e := by
    cases a with
    | raftApply cmd => exact fun hgrant => (hcond.2.1 hgrant).2
    | _ => trivial
  have htrace := handle_trace tid a e c.state
  have hfsm := handle_fsm tid a e c.state
  -- the credit is as in `credit_sound`; what is left is the cancellation
  have hcredit := credit_sound jobID n c l tid a e Q ⟨hcommits, hallowed⟩ hkept.covered hlocal hT
  cases a with
  | raftApply cmd =>
    obtain ⟨g, hQ, hcovered⟩ := hcredit
    have happlies : e.applies = true := by simp [Env.applies, hcond.1.2]
    simp only [Act.events, Act.fsm, happlies, if_true] at htrace hfsm
    exact ⟨g, hQ, hkept.raftApply hcond.2 hfsm htrace hcovered⟩
  | executeWebhook job =>
    obtain ⟨g, hQ, hcovered⟩ := hcredit
    refine ⟨g, hQ, hkept.neutral hfsm htrace hcovered (fun _ => rfl) (fun hw => ?_) rfl⟩
    have hid : job.id = jobID := by simpa [Event.isWebhook] using hw
    simp only [credit, if_pos hid] at hT
    by_contra hflag
    have hzero := hkept.closed (by simpa using hflag) tid
    have hone := hT.1
    omega
  | statusChanged oldStatus newStatus =>
    obtain ⟨g, hQ, hcovered⟩ := hcredit
    exact ⟨g, hQ, hkept.neutral hfsm htrace hcovered (fun _ => rfl) (fun hw => by cases hw) rfl⟩
  | _ => exact ⟨l tid, hT _, hkept.same tid hfsm htrace⟩

/-- **When a cancellation is final.**  The worker runs any ticks at any times with any webhook
outcomes, beside any clients, on a stable leader.  In every run whose steps are all as `CancelSafe`
asks, no webhook call is started for a job between the acceptance of its cancellation and its next
creation by a client. -/
theorem cancel_final (w : Worker) (ticks : List Worker.Tick) (clients : ℕ → Client)
    (jobID : String) (n : Node) (sched : List (ℕ × Env))
    (hstable : Along handle StableLeader ⟨n, workerAndClients w ticks clients⟩ sched)
    (hsafe : Along handle (CancelSafe jobID n) ⟨n, workerAndClients w ticks clients⟩ sched) :
    CancelFinal jobID
      (n.newEvents (run handle ⟨n, workerAndClients w ticks clients⟩ sched).state) := by
  have hnone : n.newEvents n = [] := by simp [Node.newEvents]
  have hstart : CancelKept jobID n n fun _ => 0 :=
    { covered := ⟨[], by simp, fun t => by simp⟩
      final := by
        rw [hnone]
        intro pre t job post heq
        simp at heq
      closed := fun _ _ => rfl
      status := by
        rw [hnone]
        exact fun h => by cases h }
  obtain ⟨l, hkept, _⟩ := run_local (cancel_sound jobID n) hstart
    (fun t => credit_workerAndClients w ticks clients jobID t 0) (hstable.and handle hsafe)
  exact hkept.final

/-- A test for `CancelSafe`. -/
def cancelSafe (jobID : String) (n : Node) (c : Config Act Node) (tid : ℕ) (_ : Env) : Bool :=
  match c.threads tid with
  | .step (.raftApply cmd) _ =>
    (!cmd.isGrant jobID || (c.state.fsm.jobs.lookup jobID).isSome &&
      validateStateTransition (c.state.fsm.statusOf jobID) .inProgress = none) &&
    (!cmd.isCancel jobID ||
      decide (((n.newEvents c.state).countP fun x => x.2.isGranted jobID)
        ≤ (n.newEvents c.state).countP fun x => x.2.isWebhook jobID)) &&
    (!cmd.creates jobID || !cancelled jobID (n.newEvents c.state))
  | _ => true

lemma cancelSafe_of_test (c : Config Act Node) (tid : ℕ) (e : Env) (β : Type) (a : Act β)
    (k : β → Program Act Unit) (hthread : c.threads tid = .step a k)
    (htest : cancelSafe jobID n c tid e = true) : CancelSafe jobID n c tid β a e := by
  rw [cancelSafe, hthread] at htest
  cases a with
  | raftApply cmd =>
    simp only [Bool.and_eq_true, Bool.or_eq_true, Bool.not_eq_true', decide_eq_true_eq] at htest
    obtain ⟨⟨hgrant, hcancel⟩, hcreate⟩ := htest
    refine ⟨fun h => ?_, fun h _ => ?_, fun _ h => ?_⟩
    · simpa [h] using hgrant
    · simpa [h] using hcancel
    · simpa [h] using hcreate
  | _ => trivial

/-- A client cancels `a`; then come a pass of the worker at second 5 and one at second 61. -/
def cancelThenWork : List (ℕ × Env) :=
  List.replicate 12 (1, Env.calm 0) ++ List.replicate 45 (0, Env.calm 5)
    ++ List.replicate 300 (0, Env.calm 61)

lemma cancelThenWork_stable : ∀ x ∈ cancelThenWork, x.2.Stable := by
  intro x hx
  simp only [cancelThenWork, List.mem_append, List.mem_replicate] at hx
  rcases hx with (⟨-, rfl⟩ | ⟨-, rfl⟩) | ⟨-, rfl⟩
  all_goals exact ⟨rfl, rfl⟩

/-- A job that recurs every minute. -/
def minutelyJob : Job where
  id := "a"
  type := .recurrente
  cronExpr := "* * * * *"
  webhookURL := "http://h"

/-- What the client of the two runs below does. -/
def cancelA (t : ℕ) : Client := if t = 1 then .cancel {} "a" "r" else .idle

/-- A cancelled `unico` job is not executed. -/
theorem cancel_final_unico :
    check handle
        (cancelSafe "a" (acceptedJob { id := "a", type := .unico, timestamp := some 5 }))
        ⟨acceptedJob { id := "a", type := .unico, timestamp := some 5 },
          workerAndClients everyMinute [.slots, .slots] cancelA⟩ cancelThenWork = true ∧
      CancelFinal "a" ((acceptedJob { id := "a", type := .unico, timestamp := some 5 }).newEvents
        (run handle ⟨acceptedJob { id := "a", type := .unico, timestamp := some 5 },
          workerAndClients everyMinute [.slots, .slots] cancelA⟩ cancelThenWork).state) := by
  have hcheck : check handle
      (cancelSafe "a" (acceptedJob { id := "a", type := .unico, timestamp := some 5 }))
      ⟨acceptedJob { id := "a", type := .unico, timestamp := some 5 },
        workerAndClients everyMinute [.slots, .slots] cancelA⟩ cancelThenWork = true := by
    decide +kernel
  exact ⟨hcheck, cancel_final everyMinute [.slots, .slots] cancelA "a" _ cancelThenWork
    (along_stable cancelThenWork_stable _)
    (along_of_check handle cancelSafe_of_test hcheck)⟩

/-- **A cancelled job comes back**: the first pass skips the cancelled job and creates it anew for
second 60, the second pass calls its webhook. -/
theorem webhook_after_cancel :
    Along handle StableLeader
        ⟨acceptedJob minutelyJob,
          workerAndClients everyMinute [.slots, .slots] cancelA⟩ cancelThenWork ∧
      ¬ CancelFinal "a" ((acceptedJob minutelyJob).newEvents
        (run handle ⟨acceptedJob minutelyJob,
          workerAndClients everyMinute [.slots, .slots] cancelA⟩ cancelThenWork).state) :=
  ⟨along_stable cancelThenWork_stable _, by decide +kernel⟩

end ScheduledDb
