import ScheduledDb.Slots.Worker

/-!
# A pass, phase by phase

A pass of the worker takes slot after slot, and of each slot it executes the jobs that are due,
deletes them, and creates the recurring ones anew.  Said once for all passes are here

* which webhooks are started (`Node.called`): of an execution that of its job, or none;
* what is noted down about the jobs of a slot, which depends on the jobs and the time only
  (`wpWith_processJobs`);
* which jobs are in the store after the deletions and after the creations, on a stable leader.
-/

namespace ScheduledDb

open Program PersistentSlotQueue

/-! ## Webhook calls -/

/-- The job whose webhook was started. -/
def Event.calledJob : Event → Option Job
  | webhook job => some job
  | _ => none

/-- The jobs whose webhooks were started, as they were then.  A job without a URL is among them:
`executeWebhook` is called for it too, and sends nothing. -/
def Node.called (n : Node) : List Job := n.trace.filterMap fun x => x.2.calledJob

section Called

variable {thread : ℕ} {guard : ∀ β : Type, Act β → Env → Node → Prop} {P : Command → Prop}

lemma called_record (n : Node) (job : Job) :
    (n.record thread (.webhook job)).called = n.called ++ [job] := by
  simp [Node.called, Node.record, Event.calledJob]

lemma called_handle {β : Type} {a : Act β} (ha : Quiet P β a) (e : Env) (n : Node) :
    (handle thread β a e n).1.called = n.called := by
  cases a with
  | raftApply cmd =>
    simp only [handle]
    split_ifs
    · simp [Node.called, Node.applyCommand, Event.calledJob]
    · rfl
  | executeWebhook job => exact ha.elim
  | statusChanged oldStatus newStatus =>
    simp [handle, Node.called, Node.record, Event.calledJob]
  | _ => rfl

lemma wpWith_called {α : Type} {p : Program Act α} (hp : All (Quiet P) p) (n : Node) :
    wpWith (demonic (handle thread) guard) p (fun _ n' => n'.called = n.called) n :=
  hp.invariant (fun _ e n' ha _ hn' => (called_handle ha e n').trans hn') rfl

/-- **An execution starts the webhook of its job once**, or not at all. -/
lemma ExecutionManager.wpWith_called_execute (em : ExecutionManager) (job : Job) (n : Node) :
    wpWith (demonic (handle thread) guard) (em.execute job)
      (fun _ n' => ∃ l, n'.called = n.called ++ l ∧ l.Sublist [job]) n := by
  have hnone : ∀ n' : Node, n'.called = n.called →
      ∃ l, n'.called = n.called ++ l ∧ l.Sublist [job] :=
    fun n' hn' => ⟨[], by rw [hn', List.append_nil], List.nil_sublist _⟩
  have hquiet : ∀ {α : Type} {p : Program Act α}, All (Detached fun _ => True) p → ∀ n' : Node,
      wpWith (demonic (handle thread) guard) p (fun _ n'' => n''.called = n'.called) n' :=
    fun hp n' => wpWith_called (Store.quiet_of_detached hp) n'
  refine wpWith_seq demonic_mono (hquiet (all_canExecute job.id) n)
    fun r n1 h1 => ?_
  match r with
  | .error err => exact hnone n1 h1
  | .ok false => exact hnone n1 h1
  | .ok true =>
    refine wpWith_seq demonic_mono (hquiet (all_nextAttempt job.id) n1)
      fun attemptNum n2 h2 => ?_
    refine wpWith_ite.mpr ⟨fun _ => hnone n2 (h2.trans h1), fun _ => wpWith_bind.mpr ?_⟩
    refine wpWith_mono demonic_mono (hquiet (StatusTracker.all_mark em.statusTracker all_done
      fun _ => trivial) n2) fun r n3 h3 => ?_
    have hbefore : n3.called = n.called := (h3.trans h2).trans h1
    cases r with
    | some err => exact hnone n3 hbefore
    | none =>
      simp only [callWebhook, perform_bind, wpWith_step]
      intro start _ outcome _ stop _
      -- from here on the one call is on record
      have hcall : ∀ n4 : Node, n4.called = (n3.record thread (.webhook job)).called →
          ∃ l, n4.called = n.called ++ l ∧ l.Sublist [job] := fun n4 h4 =>
        ⟨[job], by rw [h4, called_record, hbefore], List.Sublist.refl _⟩
      split
      next err _ =>
        exact wpWith_mono demonic_mono (hquiet (all_finishFailed (fun _ _ => trivial)
          (fun _ _ _ => trivial) em _ _ err) _) fun _ n4 h4 => hcall n4 h4
      next =>
        exact wpWith_mono demonic_mono (hquiet (all_finishSucceeded (fun _ _ => trivial)
          (fun _ _ _ => trivial) em _ _) _) fun _ n4 h4 => hcall n4 h4

end Called

/-! ## What is noted down -/

namespace Worker

variable {thread : ℕ} {guard : ∀ β : Type, Act β → Env → Node → Prop} {w : Worker} {now : ℤ}
  {job : Job}

/-- The jobs that a pass executes. -/
def due (now : ℤ) (jobs : List Job) : List Job := jobs.filter (shouldExecuteJob · now)

lemma due_cons (now : ℤ) (job : Job) (jobs : List Job) : due now (job :: jobs)
    = if shouldExecuteJob job now = true then job :: due now jobs else due now jobs :=
  List.filter_cons

/-- The job as it is created anew, if there is a next time. -/
def renewed (w : Worker) (now : ℤ) (job : Job) : Option Job :=
  if job.type = .recurrente ∧ 0 < w.calculateNextExecution job now then
    some { job with createdAt := w.calculateNextExecution job now }
  else none

lemma renewed_eq_some {w : Worker} {job' : Job} (h : w.renewed now job = some job') :
    job.type = .recurrente ∧ 0 < w.calculateNextExecution job now ∧
      job' = { job with createdAt := w.calculateNextExecution job now } := by
  unfold renewed at h
  split_ifs at h with hnext
  exact ⟨hnext.1, hnext.2, (Option.some.inj h).symm⟩

lemma map_id_renewed_sublist (w : Worker) (now : ℤ) (jobs : List Job) :
    ((jobs.filterMap (w.renewed now)).map Job.id).Sublist (jobs.map Job.id) := by
  induction jobs with
  | nil => exact List.Sublist.slnil
  | cons job jobs ih =>
    rw [List.filterMap_cons, List.map_cons]
    cases hjob : w.renewed now job with
    | none => exact ih.cons job.id
    | some job' =>
      obtain ⟨-, -, rfl⟩ := renewed_eq_some hjob
      exact ih.cons_cons job.id

/-- `Next` gives a time after its argument, or the zero time, which is before second `0`. -/
def CronAdvances (w : Worker) : Prop :=
  ∀ expr next, w.cron expr = some next → ∀ now, now < next now ∨ next now < 0

lemma CronAdvances.lt (h : w.CronAdvances) (hnext : 0 < w.calculateNextExecution job now) :
    now < w.calculateNextExecution job now := by
  unfold calculateNextExecution at hnext ⊢
  cases hcron : w.cron job.cronExpr with
  | none => simp [hcron] at hnext
  | some next =>
    have hlater := h job.cronExpr next hcron now
    simp only [hcron] at hnext ⊢
    cases hlast : job.lastDate with
    | none =>
      simp only [hlast] at hnext ⊢
      omega
    | some lastDate =>
      simp only [hlast] at hnext ⊢
      split_ifs at hnext ⊢
      · omega
      · omega

lemma everyMinute_cronAdvances : everyMinute.CronAdvances := by
  intro expr next hnext now
  obtain rfl := eq_nextMinute hnext
  refine (lt_nextMinute now).imp_right fun hzero => ?_
  rw [hzero]
  decide

/-- A job that was created anew is not due in the same pass. -/
lemma CronAdvances.not_due (h : w.CronAdvances) {job' : Job}
    (hjob : w.renewed now job = some job') : shouldExecuteJob job'.wire now = false := by
  obtain ⟨htype, hnext, rfl⟩ := renewed_eq_some hjob
  simpa [shouldExecuteJob, Job.wire, htype] using h.lt hnext

/-- The jobs are to be removed, and created anew if they have a next time. -/
structure Noted (w : Worker) (now : ℤ) (jobs : List Job) (round round' : Round) : Prop where
  removed : round'.jobsToRemove = round.jobsToRemove ++ jobs.map Job.id
  rescheduled : round'.jobsToReschedule = round.jobsToReschedule ++ jobs.filterMap (w.renewed now)

lemma noted_settle (w : Worker) (hdue : shouldExecuteJob job now = true) (round : Round) :
    w.Noted now [job] round (w.settle now round job) := by
  unfold settle
  cases htype : job.type with
  | unico => exact ⟨rfl, by simp [renewed, htype]⟩
  | recurrente =>
    refine ⟨rfl, ?_⟩
    by_cases hnext : 0 < w.calculateNextExecution job now
    · simp [renewed, htype, hnext]
    · simp [renewed, htype, hnext]
  | other text => simp [shouldExecuteJob, htype] at hdue

/-- One job, and then the others. -/
lemma Noted.cons {w : Worker} {jobs : List Job} {round round' round'' : Round}
    (h : w.Noted now [job] round round') (h' : w.Noted now jobs round' round'') :
    w.Noted now (job :: jobs) round round'' := by
  refine ⟨?_, ?_⟩
  · rw [h'.removed, h.removed]
    simp
  · rw [h'.rescheduled, h.rescheduled, List.append_assoc, ← List.filterMap_append]
    rfl

/-- **The jobs of a slot, one after the other.**  What every execution keeps is kept, webhooks are
started of jobs that are due only, and at most once for each place in the list. -/
lemma wpWith_processJobs (w : Worker) (now : ℤ) {I : Node → Prop}
    (jobs : List Job) (hI : ∀ job ∈ jobs, ∀ n, I n →
      wpWith (demonic (handle thread) guard) (w.executionManager.execute job) (fun _ => I) n)
    (round : Round) {n : Node} (hn : I n) :
    wpWith (demonic (handle thread) guard) (foldEach jobs (w.processJob now) round)
      (fun round' n' => I n' ∧ w.Noted now (due now jobs) round round' ∧
        ∃ l, n'.called = n.called ++ l ∧ l.Sublist (due now jobs)) n := by
  induction jobs generalizing round n with
  | nil => exact ⟨hn, ⟨by simp [due], by simp [due]⟩, [], by simp, List.nil_sublist _⟩
  | cons job jobs ih =>
    obtain ⟨hjob, hI⟩ := List.forall_mem_cons.mp hI
    rw [foldEach]
    refine wpWith_bind.mpr (wpWith_ite.mpr ⟨fun hdue => wpWith_bind.mpr ?_, fun hnot => ?_⟩)
    · have hexecute := wpWith_and (hjob n hn)
        (w.executionManager.wpWith_called_execute job n)
      refine wpWith_mono demonic_mono hexecute ?_
      rintro _ n1 ⟨h1, l, hl, hsub⟩
      rw [pure_eq, wpWith_done]
      refine wpWith_mono demonic_mono (ih hI (w.settle now round job) h1) ?_
      rintro round' n2 ⟨h2, hnoted, l', hl', hsub'⟩
      rw [due_cons, if_pos hdue]
      refine ⟨h2, (noted_settle w hdue round).cons hnoted, l ++ l', ?_, hsub.append hsub'⟩
      rw [hl', hl, List.append_assoc]
    · rw [due_cons, if_neg hnot, pure_eq, wpWith_done]
      refine wpWith_mono demonic_mono (ih hI { round with hasJobsNotReady := true } hn) ?_
      rintro round' n1 ⟨h1, hnoted, hcalled⟩
      exact ⟨h1, ⟨hnoted.removed, hnoted.rescheduled⟩, hcalled⟩

/-- The executions leave the jobs alone. -/
lemma wpWith_processJobs_sameJobs (w : Worker) (now : ℤ) (jobs : List Job) (n : Node) :
    wpWith (demonic (handle thread) guard) (foldEach jobs (w.processJob now) {})
      (fun round n' => n.fsm.SameJobs n'.fsm ∧ w.Noted now (due now jobs) {} round ∧
        ∃ l, n'.called = n.called ++ l ∧ l.Sublist (due now jobs)) n :=
  w.wpWith_processJobs now jobs (fun job _ n' h' => wpWith_mono demonic_mono
    (Store.wpWith_leavesJobs (w.executionManager.issues_execute job) n') fun _ _ h'' => h'.trans h'')
    {} (FSM.SameJobs.refl n.fsm)

/-! ## Which jobs there are -/

section Lookup

variable (hstable : ∀ {β : Type} (a : Act β) (e : Env) (n : Node), guard β a e n → e.Stable)

include hstable

lemma wpWith_lookup_removeExecuted (id : String) (n : Node) :
    wpWith (demonic (handle thread) guard) (removeExecuted id)
      (fun _ n' => ∀ id', n'.fsm.jobs.lookup id'
        = if id' = id ∧ id' ≠ "" then none else n.fsm.jobs.lookup id') n := by
  refine wpWith_bind.mpr (Store.wpWith_ifLeader hstable
    (wpWith_deleteJob hstable fun e n1 _ h1 => ?_))
  refine wpWith_mono demonic_mono (Store.wpWith_quiet
    (Store.quiet_mono (all_removeJob id) fun _ hcmd => hcmd.leavesJobs) n1) fun _ n2 h2 id' => ?_
  rw [(h1.trans h2).jobs]
  by_cases hempty : id = ""
  · subst hempty
    rw [FSM.apply_deleteJob_empty, if_neg fun h => h.2 h.1]
  · rw [FSM.apply_deleteJob _ _ hempty, Finmap.lookup_erase_ite]
    by_cases hid : id' = id
    · rw [if_pos hid, if_pos ⟨hid, hid ▸ hempty⟩]
    · rw [if_neg hid, if_neg fun h => hid h.1]

lemma wpWith_lookup_removeAll (ids : List String) (n : Node) :
    wpWith (demonic (handle thread) guard) (forEach ids removeExecuted)
      (fun _ n' => ∀ id, n'.fsm.jobs.lookup id
        = if id ∈ ids ∧ id ≠ "" then none else n.fsm.jobs.lookup id) n := by
  induction ids generalizing n with
  | nil => exact fun id => by simp
  | cons id ids ih =>
    refine wpWith_seq demonic_mono
      (wpWith_lookup_removeExecuted hstable id n) fun _ n1 h1 => ?_
    refine wpWith_mono demonic_mono (ih n1) fun _ n2 h2 id' => ?_
    rw [h2 id', h1 id']
    by_cases hempty : id' = ""
    · simp [hempty]
    · by_cases hmem : id' ∈ ids <;> simp [hempty, hmem]

lemma wpWith_lookup_reschedule (job : Job) (n : Node) :
    wpWith (demonic (handle thread) guard) (reschedule job)
      (fun _ n' => ∀ id, n'.fsm.jobs.lookup id
        = if id = job.id then some job.wire else n.fsm.jobs.lookup id) n := by
  refine Store.wpWith_ifLeader hstable (wpWith_createJob hstable fun e n1 _ h1 id => ?_)
  rw [h1.jobs, FSM.apply_createJob, Finmap.lookup_insert_ite]

/-- What is in the store after the creations was there before, or is a job created anew. -/
lemma wpWith_lookup_rescheduleAll (jobs : List Job) (n : Node) :
    wpWith (demonic (handle thread) guard) (forEach jobs reschedule)
      (fun _ n' => ∀ id job, n'.fsm.jobs.lookup id = some job →
        n.fsm.jobs.lookup id = some job ∨ ∃ job' ∈ jobs, job'.id = id ∧ job = job'.wire) n := by
  induction jobs generalizing n with
  | nil => exact fun id job hjob => Or.inl hjob
  | cons first rest ih =>
    refine wpWith_seq demonic_mono
      (wpWith_lookup_reschedule hstable first n) fun _ n1 h1 => ?_
    refine wpWith_mono demonic_mono (ih n1) fun _ n2 h2 id job hjob => ?_
    rcases h2 id job hjob with hold | ⟨job', hmem, hnew⟩
    · rw [h1 id] at hold
      split_ifs at hold with hid
      · exact .inr ⟨first, List.mem_cons_self, hid.symm, (Option.some.inj hold).symm⟩
      · exact .inl hold
    · exact .inr ⟨job', List.mem_cons_of_mem first hmem, hnew⟩

end Lookup

/-- **One slot on a stable leader.**  Webhooks are started of jobs that are due.  What is in the
store afterwards was there and was not due, or was created anew; ids that are empty are not
deleted. -/
lemma wp_processSlot (w : Worker) (now : ℤ) (s : Slot) (n : Node) :
    wp (handle thread) Env.Stable (w.processSlot now s)
      (fun _ n' => (∃ l, n'.called = n.called ++ l ∧ l.Sublist (due now s.jobs)) ∧
        ∀ id job, n'.fsm.jobs.lookup id = some job →
          (n.fsm.jobs.lookup id = some job ∧ (id ∈ (due now s.jobs).map Job.id → id = "")) ∨
          ∃ old ∈ due now s.jobs, ∃ job', w.renewed now old = some job' ∧ job'.id = id ∧
            job = job'.wire) n := by
  have hcalled : ∀ {α : Type} {p : Program Act α}, All (Quiet fun _ => True) p → ∀ n' : Node,
      wp (handle thread) Env.Stable p (fun _ n'' => n''.called = n'.called) n' :=
    fun hp n' => wpWith_called hp n'
  refine wp_seq (w.wpWith_processJobs_sameJobs now s.jobs n) ?_
  rintro round n1 ⟨hsame, hnoted, l, hl, hsub⟩
  have hremoved : round.jobsToRemove = (due now s.jobs).map Job.id := hnoted.removed
  have hrescheduled : round.jobsToReschedule = (due now s.jobs).filterMap (w.renewed now) :=
    hnoted.rescheduled
  refine wp_seq (wpWith_and (hcalled (all_forEach fun id _ => all_removeExecuted
    (fun _ _ => trivial) trivial) n1) (wpWith_lookup_removeAll (fun _ _ _ he => he)
      round.jobsToRemove n1)) ?_
  rintro _ n2 ⟨hcalled2, hlookup2⟩
  refine wp_seq (wpWith_and (hcalled (all_forEach fun job _ => all_reschedule
    (fun _ _ => trivial) trivial) n2) (wpWith_lookup_rescheduleAll (fun _ _ _ he => he)
      round.jobsToReschedule n2)) ?_
  rintro _ n3 ⟨hcalled3, hlookup3⟩
  refine ⟨⟨l, by rw [hcalled3, hcalled2, hl], hsub⟩, fun id job hjob => ?_⟩
  rcases hlookup3 id job hjob with hold | ⟨job', hmem, hid, hnew⟩
  · rw [hlookup2 id] at hold
    split_ifs at hold with hgone
    rw [hsame.jobs] at hold
    rw [hremoved] at hgone
    exact .inl ⟨hold, fun hmem => not_not.mp fun hne => hgone ⟨hmem, hne⟩⟩
  · rw [hrescheduled] at hmem
    obtain ⟨old, hold, hrenewed⟩ := List.mem_filterMap.mp hmem
    exact .inr ⟨old, hold, job', hrenewed, hid, hnew⟩

end Worker

end ScheduledDb
