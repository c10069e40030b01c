import ScheduledDb.Api.Admission
import ScheduledDb.Api.StatusHandlers
import ScheduledDb.Slots.LeaderRun

/-!
# The service that a leader offers

A leader as its clients see it: requests come in and are answered, and between them the worker makes
its passes, looks for timeouts and prunes.  Everything happens one after the other, under the
conditions of `ScheduledDb.Slots.LeaderRun`; of a create request it is asked that the job in it has an
id that is not in use and, if it recurs, does not begin in a slot that is over.  That a one-shot job
is not too late is for `Validate` to see to.

The answers, together with the times of the passes, say all there is to know about the webhooks
(**`answers_tell_agenda`**): an answer with a job is an entry, `204` to a delete request strikes one
out, an answer to a cancel request calls one off, and everything else changes nothing.  So

* a one-shot job that was accepted is called once, by the first pass that is not too early
  (**`accepted_called_once`**);
* a job that is still stored is `pending`, or `cancelled` if it was called off, so that how an
  execution ended is not to be seen (**`stored_job_waits`**).
-/

namespace ScheduledDb

open Machine Program PersistentSlotQueue StatusTracker Handlers

/-! ## Requests -/

/-- A request, as the router takes it apart. -/
inductive ApiRequest where
  | createJob (body : Option CreateJobRequest)
  | getJob (id : String)
  | deleteJob (id : String)
  | getJobStatus (id : String)
  | getJobExecutions (id : String)
  | cancelJob (id reason : String)
  | listJobsByStatus (statusParam : String)
  deriving DecidableEq, Repr

namespace ApiRequest

/-- The handler that the router has for a request. -/
def program (h : Handlers) : ApiRequest → Program Act ApiResponse
  | createJob body => h.createJob body >>= fun r => pure (.plain r)
  | getJob id => Handlers.getJob id
  | deleteJob id => h.deleteJob id >>= fun r => pure (.plain r)
  | getJobStatus id => Handlers.getJobStatus id
  | getJobExecutions id => Handlers.getJobExecutions id
  | cancelJob id reason => Handlers.cancelJob id reason
  | listJobsByStatus statusParam => Handlers.listJobsByStatus statusParam

/-- What an answer tells about the agenda. -/
def op : ApiRequest → ApiResponse → Agenda.Op String Job
  | createJob _, .plain (.job job) => .enter job.wire
  | deleteJob id, .plain .noContent => .strike id
  | cancelJob id _, .cancelled _ _ _ _ => .callOff id
  | _, _ => .rest

lemma op_createJob_of_ne (body : Option CreateJobRequest) {r : HttpResponse}
    (hr : ∀ job, r ≠ .job job) : (createJob body).op (.plain r) = .rest := by
  cases r with
  | job job => exact absurd rfl (hr job)
  | _ => rfl

lemma op_deleteJob_of_ne (id : String) {r : HttpResponse} (hr : r ≠ .noContent) :
    (deleteJob id).op (.plain r) = .rest := by
  cases r with
  | noContent => exact absurd rfl hr
  | _ => rfl

end ApiRequest

/-! ## Steps that move counters only -/

/-- A command that moves a counter. -/
def Command.Counts (cmd : Command) : Prop :=
  cmd.type = .updateMemoryUsage ∨ cmd.type = .updateJobCount

namespace Handlers

/-- An action that writes nothing but counters. -/
def Counting : ∀ β : Type, Act β → Prop
  | _, .raftApply cmd => cmd.Counts
  | _, .queue _ => False
  | _, .executeWebhook _ => False
  | _, _ => True

lemma counting_propose {cmd : Command} (hcmd : cmd.Counts) : All Counting (Store.propose cmd) := by
  refine ⟨trivial, fun _ => all_ite.mpr ⟨fun _ => ⟨hcmd, fun r => ?_⟩, fun _ => trivial⟩⟩
  cases r with
  | none => trivial
  | some cause => trivial

lemma counting_updateMemoryUsage (delta : ℤ) : All Counting (Store.updateMemoryUsage delta) :=
  counting_propose (Or.inl rfl)

lemma counting_updateJobCount (delta : ℤ) : All Counting (Store.updateJobCount delta) :=
  counting_propose (Or.inr rfl)

lemma counting_checkCapacity (h : Handlers) (job : Job) : All Counting (h.checkCapacity job) := by
  unfold checkCapacity
  cases h.limitManager with
  | none => trivial
  | some lm =>
    have hcount : All Counting lm.jobCounter.checkCapacity :=
      ⟨trivial, fun _ => all_ite.mpr ⟨fun _ => trivial, fun _ => trivial⟩⟩
    have hmemory : All Counting (lm.memoryTracker.checkCapacity (lm.size job)) :=
      ⟨trivial, fun _ => all_ite.mpr ⟨fun _ => trivial, fun _ => trivial⟩⟩
    refine hmemory.bind fun r => ?_
    cases r with
    | none => exact hcount
    | some err => trivial

lemma counting_countAdded (h : Handlers) (job : Job) : All Counting (h.countAdded job) := by
  unfold countAdded
  cases h.limitManager with
  | none => trivial
  | some lm =>
    refine ((counting_updateMemoryUsage _).bind fun r => ?_).bind fun _ => trivial
    cases r with
    | some err => trivial
    | none =>
      refine (counting_updateJobCount 1).bind fun r => ?_
      cases r with
      | some err => exact (counting_updateMemoryUsage _).bind fun _ => trivial
      | none => trivial

lemma counting_countRemoved (h : Handlers) (job : Job) : All Counting (h.countRemoved job) := by
  unfold countRemoved
  cases h.limitManager with
  | none => trivial
  | some lm =>
    refine ((counting_updateMemoryUsage _).bind fun r => ?_).bind fun _ => trivial
    cases r with
    | some err => trivial
    | none => exact counting_updateJobCount (-1)

end Handlers

/-- Such a command leaves everything else as it is. -/
lemma FSM.apply_counts {cmd : Command} (hcmd : cmd.Counts) (f : FSM) (faults : ColdFaults) :
    (f.apply faults cmd).1.jobs = f.jobs ∧ f.SameSlots (f.apply faults cmd).1 ∧
      (f.apply faults cmd).1.executionStates = f.executionStates := by
  rcases hcmd with htype | htype
  · simp only [FSM.apply, Command.wire, applyCommandInternal, htype]
    exact ⟨rfl, ⟨rfl, rfl, rfl⟩, rfl⟩
  · simp only [FSM.apply, Command.wire, applyCommandInternal, htype]
    exact ⟨rfl, ⟨rfl, rfl, rfl⟩, rfl⟩

/-- Jobs, execution states, slots and queue are as they were, and no webhook was started. -/
structure Node.Unaffected (n n' : Node) : Prop where
  aside : Aside n n'
  undisclosed : Undisclosed n n'

namespace Node.Unaffected

variable {n n' n'' : Node}

lemma refl (n : Node) : n.Unaffected n := ⟨.refl n, .refl n⟩

lemma trans (h : n.Unaffected n') (h' : n'.Unaffected n'') : n.Unaffected n'' :=
  ⟨h.aside.trans h'.aside, h.undisclosed.trans h'.undisclosed⟩

lemma applyCommand {cmd : Command} (hcmd : cmd.Counts) (n : Node) (thread : ℕ)
    (faults : ColdFaults) : n.Unaffected (n.applyCommand thread faults cmd) := by
  obtain ⟨hjobs, hslots, hstates⟩ := FSM.apply_counts hcmd n.fsm faults
  refine ⟨⟨rfl, hslots, hjobs⟩, fun id => ?_, called_applyCommand ..⟩
  exact FSM.dossier_congr (congrArg (Finmap.lookup id) hjobs) (congrArg (Finmap.lookup id) hstates)

lemma handle {β : Type} {a : Act β} (ha : Counting β a) (thread : ℕ) (e : Env) (n : Node) :
    n.Unaffected (ScheduledDb.handle thread β a e n).1 := by
  cases a with
  | raftApply cmd =>
    simp only [ScheduledDb.handle]
    split_ifs
    · exact applyCommand ha n thread e.faults
    · exact refl n
  | queue f => exact ha.elim
  | executeWebhook job => exact ha.elim
  | statusChanged oldStatus newStatus =>
    refine ⟨⟨rfl, ⟨rfl, rfl, rfl⟩, rfl⟩, fun _ => rfl, ?_⟩
    simp [ScheduledDb.handle, Node.called, Node.record, Event.calledJob]
  | _ => exact refl n

end Node.Unaffected

variable {thread : ℕ} {α : Type} {id : String} {n : Node} {ok : Env → Prop} {s : Service} {time : ℤ}

lemma wpWith_counting {guard : ∀ β : Type, Act β → Env → Node → Prop} {p : Program Act α}
    (hp : All Counting p) (n : Node) :
    wpWith (demonic (handle thread) guard) p (fun _ n' => n.Unaffected n') n :=
  hp.invariant (fun _ e n' ha _ hn' => hn'.trans (.handle ha thread e n')) (.refl n)

/-! ## One request -/

lemma Store.wp_getJob {f : Option Job → Program Act α} {Q : α → Node → Prop}
    (h : wp (handle thread) ok (f (n.fsm.jobs.lookup id)) Q n) :
    wp (handle thread) ok (perform (.getJob id) >>= f) Q n :=
  fun _ _ => h

lemma StatusTracker.wp_getStatus {Q : Except String JobExecutionState → Node → Prop}
    (h : Q ((n.fsm.executionStates.lookup id).elim (.error (stateNotFound id)) .ok) n) :
    wp (handle thread) ok (getStatus id) Q n := by
  have hread : wp (handle thread) ok (perform (.getExecutionState id))
      (fun state n' => state = n.fsm.executionStates.lookup id ∧ n' = n) n := fun _ _ => ⟨rfl, rfl⟩
  refine wp_seq hread ?_
  rintro state n' ⟨hstate, rfl⟩
  rw [← hstate] at h
  cases state with
  | none => exact h
  | some state => exact h

/-- A status that is not the default is that of an execution state. -/
lemma FSM.lookup_of_cancelled {f : FSM} (h : f.statusOf id = .cancelled) :
    ∃ state, f.executionStates.lookup id = some state ∧ state.status = .cancelled := by
  cases hstate : f.executionStates.lookup id with
  | none => simp [FSM.statusOf, hstate] at h
  | some state => exact ⟨state, rfl, (FSM.statusOf_of_lookup hstate).symm.trans h⟩

namespace InStep

variable {G : WheelGeometry} {b K : ℤ} {n : Node}

/-- What `Validate` lets pass is not too late. -/
lemma wp_validate {gap : ℤ} (hgap : 0 < gap) (p : Parsers) {job : Job}
    (hfirst : job.type = .recurrente → K ≤ job.createdAt.tdiv gap) (n : Node) :
    wp (handle queueThread) (DuringSlot gap K) (job.validate p)
      (fun r n' => n' = n ∧
        (r = none → job.id ≠ "" ∧ ∀ time ∈ job.dueTime, K ≤ time.tdiv gap)) n := by
  unfold Job.validate
  refine wp_ite.mpr ⟨fun _ => ⟨rfl, by simp⟩, fun hid => ?_⟩
  cases htype : job.type with
  | other text => exact ⟨rfl, by simp⟩
  | recurrente =>
    refine wp_ite.mpr ⟨fun _ => ⟨rfl, by simp⟩, fun _ => ?_⟩
    cases p.parseCron job.cronExpr with
    | some err => exact ⟨rfl, by simp⟩
    | none =>
      refine ⟨rfl, fun _ => ⟨hid, fun time htime => ?_⟩⟩
      rw [Job.dueTime, htype, Option.mem_some_iff] at htime
      exact htime ▸ hfirst htype
  | unico =>
    cases htimestamp : job.timestamp with
    | none => exact ⟨rfl, by simp⟩
    | some timestamp =>
      intro e he
      refine wp_ite.mpr ⟨fun _ => ⟨rfl, by simp⟩, fun hlate => ⟨rfl, fun _ => ⟨hid, ?_⟩⟩⟩
      intro time htime
      rw [Job.dueTime, htype, htimestamp, Option.mem_some_iff] at htime
      rw [← htime, ← he.2.2]
      exact Int.tdiv_le_tdiv hgap (le_of_lt (not_le.mp hlate))

/-- **A create request** from the moment the job is known.  An answer with a job is the answer of a
store that has it; after any other answer nothing has changed. -/
lemma wp_createValid (h : InStep G b n) (hb : 0 ≤ b) (hbK : b ≤ K) (hs : Handlers) {job : Job}
    (hfresh : n.fsm.jobs.lookup job.id = none) (hrange : ∀ time ∈ job.dueTime, InRange time)
    (hfirst : job.type = .recurrente → K ≤ job.createdAt.tdiv G.gap) :
    wp (handle queueThread) (DuringSlot G.gap K) (hs.createValid job)
      (fun r n' => (r = .job job ∧ job.id ≠ "" ∧ (∃ b', (b' = b ∨ b' = K) ∧ InStep G b' n') ∧
          n'.called = n.called ∧ ∀ id, n'.fsm.dossier id
            = if id = job.id then some (newDossier job) else n.fsm.dossier id) ∨
        (∀ job', r ≠ .job job') ∧ n.Unaffected n') n := by
  refine wp_seq (wp_validate G.gap_pos hs.parsers hfirst n) ?_
  rintro r _ ⟨rfl, hvalid⟩
  cases r with
  | some err => exact Or.inr ⟨by simp, .refl _⟩
  | none =>
    obtain ⟨hid, hdue⟩ := hvalid rfl
    refine wp_seq (wpWith_counting (hs.counting_checkCapacity job) _) ?_
    rintro r n1 hcheck
    cases r with
    | some err => exact Or.inr ⟨by simp, hcheck⟩
    | none =>
      have hstep1 := h.of_aside hcheck.aside
      have hfresh1 : n1.fsm.jobs.lookup job.id = none := by rw [hcheck.aside.jobs, hfresh]
      have hnone : wp (handle queueThread) (DuringSlot G.gap K)
          (Store.createJob jobEventHandler job) (fun r _ => r = none) n1 :=
        wp_bind.mpr (Store.wpWith_propose (fun _ _ _ he => he.1) fun e _ => wp_bind.mpr
          (wp_mono (all_true.invariant (I := fun _ => True) (fun _ _ _ _ _ _ => trivial) trivial)
            fun _ _ _ => rfl))
      refine wp_seq (wpWith_and hnone (hstep1.wp_createJob hb hbK hfresh1
        fun time htime => ⟨hdue time htime, hrange time htime⟩)) ?_
      rintro _ n2 ⟨rfl, ⟨b', hb', hstep2⟩, hcalled, hdossier⟩
      refine wp_seq (wpWith_counting (hs.counting_countAdded job) n2) ?_
      rintro _ n3 hcount
      refine Or.inl ⟨rfl, hid, ⟨b', hb', hstep2.of_aside hcount.aside⟩, ?_, fun id => ?_⟩
      · rw [hcount.undisclosed.called, hcalled, hcheck.undisclosed.called]
      · rw [hcount.undisclosed.dossier, hdossier, hcheck.undisclosed.dossier]

/-- **A delete request.** -/
lemma wp_deleteRequest (h : InStep G b n) (hs : Handlers) (id : String) :
    wp (handle queueThread) (DuringSlot G.gap K) (hs.deleteJob id)
      (fun r n' => (r = .noContent ∧ InStep G b n' ∧ n'.called = n.called ∧
          ∀ id', n'.fsm.dossier id' = if id' = id then none else n.fsm.dossier id') ∨
        r ≠ .noContent ∧ n.Unaffected n') n := by
  intro e he
  refine wp_ite.mpr ⟨fun _ => wp_ite.mpr ⟨fun _ => Or.inr ⟨by simp, .refl n⟩, fun hid => ?_⟩,
    fun hno => absurd he.1.1 hno⟩
  refine Store.wp_getJob (n := n) ?_
  cases n.fsm.jobs.lookup id with
  | none => exact Or.inr ⟨by simp, .refl n⟩
  | some job =>
    have hnone : wp (handle queueThread) (DuringSlot G.gap K)
        (Store.deleteJob jobEventHandler id) (fun r _ => r = none) n :=
      Store.wpWith_deleteJob (fun _ _ _ he => he.1) fun _ _ =>
        wp_mono (all_true.invariant (I := fun _ => True) (fun _ _ _ _ _ _ => trivial) trivial)
          fun _ _ _ => rfl
    refine wp_seq (wpWith_and hnone
      (h.wp_deleteJob (fun _ he => he.1) (Or.inl hid))) ?_
    rintro _ n1 ⟨rfl, hstep1, hcalled, hdossier⟩
    refine wp_seq (wpWith_counting (hs.counting_countRemoved job) n1) ?_
    rintro _ n2 hcount
    refine Or.inl ⟨rfl, hstep1.of_aside hcount.aside, ?_, fun id' => ?_⟩
    · rw [hcount.undisclosed.called, hcalled]
    · rw [hcount.undisclosed.dossier, hdossier]

/-- **A cancel request.**  The answer says `cancelled`, and that is so. -/
lemma wp_cancelRequest (hwaiting : AllWaiting n) (id reason : String) :
    wp (handle queueThread) (DuringSlot G.gap K) (cancelJob id reason)
      (fun r n' => ((∃ cancelledAt message, r = .cancelled id .cancelled cancelledAt message) ∧
          Cancels id n n') ∨
        (∃ status message, r = .error status message) ∧ n.Unaffected n') n := by
  have hmark : ∀ flag, (n.fsm.dossier id).isSome → wp (handle queueThread) (DuringSlot G.gap K)
      (markJobCancelled id reason flag)
      (fun r n' => (∃ cancelledAt message, r = .cancelled id .cancelled cancelledAt message) ∧
        Cancels id n n') n := by
    intro flag hsome
    refine wp_seq (wp_markCancelled (fun _ he => he.1) {} id reason
      fun d hd => (hwaiting id d hd).2) ?_
    rintro _ n1 ⟨rfl, hcancels⟩
    -- the status that is found afterwards
    obtain ⟨d, hd⟩ := Option.isSome_iff_exists.mp hsome
    have hd1 := hcancels.dossier id
    rw [if_pos rfl, hd, Option.map_some] at hd1
    obtain ⟨state, hstate, hstatus⟩ := FSM.lookup_of_cancelled (FSM.dossier_eq_some hd1).2.1
    refine wp_bind.mpr (wp_getStatus ?_)
    rw [hstate]
    show (∃ cancelledAt message, ApiResponse.cancelled id state.status _ _ = _) ∧ _
    rw [hstatus]
    exact ⟨⟨_, _, rfl⟩, hcancels⟩
  intro e he
  refine wp_ite.mpr ⟨fun _ => wp_ite.mpr ⟨fun _ => Or.inr ⟨⟨_, _, rfl⟩, .refl n⟩, fun _ => ?_⟩,
    fun hno => absurd he.1.1 hno⟩
  refine Store.wp_getJob (n := n) ?_
  cases hjob : n.fsm.jobs.lookup id with
  | none => exact Or.inr ⟨⟨_, _, rfl⟩, .refl n⟩
  | some job =>
    have hsome : (n.fsm.dossier id).isSome := by simp [FSM.dossier, hjob]
    refine wp_bind.mpr (wp_getStatus ?_)
    cases n.fsm.executionStates.lookup id with
    | none => exact wp_mono (hmark false hsome) fun _ _ h => Or.inl h
    | some state => exact wp_mono (hmark _ hsome) fun _ _ h => Or.inl h

end InStep

namespace Handlers

lemma counting_withJob (id : String) {answer : Job → Program Act ApiResponse}
    (hanswer : ∀ job, All Counting (answer job)) : All Counting (withJob id answer) := by
  refine all_ite.mpr ⟨fun _ => trivial, fun _ => ⟨trivial, fun job => ?_⟩⟩
  cases job with
  | none => trivial
  | some job => exact hanswer job

lemma counting_getJobStatus (id : String) : All Counting (getJobStatus id) := by
  refine counting_withJob id fun _ => ⟨trivial, fun state => ?_⟩
  cases state with
  | none => exact ⟨trivial, fun _ => trivial⟩
  | some state => trivial

lemma counting_getJobExecutions (id : String) : All Counting (getJobExecutions id) := by
  refine counting_withJob id fun _ => ⟨trivial, fun state => ?_⟩
  cases state with
  | none => trivial
  | some state => trivial

lemma counting_listJobsByStatus (statusParam : String) :
    All Counting (listJobsByStatus statusParam) :=
  all_ite.mpr ⟨fun _ => trivial, fun _ =>
    all_ite.mpr ⟨fun _ => ⟨trivial, fun _ => trivial⟩, fun _ => trivial⟩⟩

/-- A create request on a leader: the request is made a job, or not, and the rest is about the job. -/
lemma run_createJob_of_leader (h : Handlers) (req : CreateJobRequest) {env : ℕ → Env} (thread : ℕ)
    (n : Node) (hleader : (env 0).leader = true) :
    ∃ shift, run (handle thread) (h.createJob (some req)) env n
      = match h.requestedJob req env with
        | .error err =>
          (n, .error 400 (h.safeErrorMessage "Invalid job data" err), fun i => env (i + shift))
        | .ok job => run (handle thread) (h.createValid job) (fun i => env (i + shift)) n := by
  by_cases hid : req.id = ""
  · refine ⟨3, ?_⟩
    simp only [createJob, CreateJobRequest.toJob, CreateJobRequest.chooseID, requestedJob,
      hid, if_true,
      perform_bind, step_bind, done_bind, pure_eq, run_step, handle, hleader]
    cases req.build h.parsers (env 2).uuid (env 1).now with
    | error err => rfl
    | ok job => rfl
  · refine ⟨2, ?_⟩
    simp only [createJob, CreateJobRequest.toJob, CreateJobRequest.chooseID, requestedJob,
      hid, if_true,
      if_false, perform_bind, step_bind, done_bind, pure_eq, run_step, handle, hleader]
    cases req.build h.parsers req.id (env 1).now with
    | error err => rfl
    | ok job => rfl

end Handlers

/-! ## The service -/

/-- What happens at a leader. -/
inductive Occasion where
  | request (r : ApiRequest)
  | pass
  | timeouts
  | prune (retention : Duration)
  deriving DecidableEq

/-- An occasion, when it comes and what it finds. -/
structure Visit where
  occasion : Occasion
  time : ℤ
  env : ℕ → Env

/-- What there is to see from outside: an occasion, its time, and the answer if it is a request. -/
structure Exchange where
  occasion : Occasion
  time : ℤ
  answer : Option ApiResponse
  deriving DecidableEq

/-- What that tells about the agenda. -/
def Exchange.op (x : Exchange) : Agenda.Op String Job :=
  match x.occasion, x.answer with
  | .request r, some answer => r.op answer
  | .pass, _ => .pass x.time
  | _, _ => .rest

structure Service where
  leader : Leader
  log : List Exchange

namespace Service

def new (slotGap : Duration) (configs : List WheelLevelConfig) (start : ℤ) : Service where
  leader := Leader.new slotGap configs start
  log := []

/-- The node and the answer after a request. -/
def served (h : Handlers) (s : Service) (r : ApiRequest) (env : ℕ → Env) : Node × ApiResponse :=
  let result := run (handle queueThread) (r.program h) env s.leader.node
  (result.1, result.2.1)

/-- The leader serves a request or does a duty, and the log says what was answered. -/
def step (h : Handlers) (w : Worker) (s : Service) (x : Visit) : Service where
  leader :=
    match x.occasion with
    | .request r => s.leader.moved (s.served h r x.env).1 x.time
    | .pass => s.leader.step w ⟨.pass, x.time, x.env⟩
    | .timeouts => s.leader.step w ⟨.timeouts, x.time, x.env⟩
    | .prune retention => s.leader.step w ⟨.prune retention, x.time, x.env⟩
  log := s.log ++ [⟨x.occasion, x.time,
    match x.occasion with
    | .request r => some (s.served h r x.env).2
    | _ => none⟩]

/-- What may come next. -/
def Admissible (h : Handlers) (gap : ℤ) (s : Service) (x : Visit) : Prop :=
  s.leader.clock ≤ x.time ∧ (∀ i, DuringSlot gap (x.time.tdiv gap) (x.env i)) ∧
    match x.occasion with
    | .request (.createJob (some req)) => ∀ job, h.requestedJob req x.env = .ok job →
        s.leader.node.fsm.jobs.lookup job.id = none ∧ (∀ time ∈ job.dueTime, InRange time) ∧
          (job.type = .recurrente → x.time.tdiv gap ≤ job.createdAt.tdiv gap)
    | .pass =>
      (x.env 0).now = x.time ∧ (s.leader.lastPass.tdiv gap = x.time.tdiv gap ∨
        s.leader.lastPass.tdiv gap + 1 = x.time.tdiv gap ∧
          s.leader.node.NothingLeft gap (x.time.tdiv gap))
    | _ => True

end Service

/-! ## One occasion -/

lemma run_plain (p : Program Act HttpResponse) (env : ℕ → Env) (n : Node) :
    run (handle queueThread) (p >>= fun r => pure (ApiResponse.plain r)) env n
      = ((run (handle queueThread) p env n).1, .plain (run (handle queueThread) p env n).2.1,
          (run (handle queueThread) p env n).2.2) := run_bind _ _ _ _ _

namespace Leader.Sound

variable {G : WheelGeometry} {s : Leader} {w : Worker} {time : ℤ} {env : ℕ → Env} (h : s.Sound G)
  (hclock : s.clock ≤ time) (henv : ∀ i, DuringSlot G.gap (time.tdiv G.gap) (env i))

include h hclock

/-- An answer after which nothing has changed. -/
lemma unaffected {n : Node} (hsame : s.node.Unaffected n) :
    (s.moved n time).Sound G ∧ w.rules.Step .rest s.node.agenda n.agenda := by
  exact h.rested hclock (h.inStep_by hclock hsame.aside) hsame.undisclosed

include henv

/-- A request that only reads. -/
lemma read (hs : Handlers) {r : ApiRequest} (hr : All Counting (r.program hs))
    (hop : ∀ answer, r.op answer = .rest) :
    let result := run (handle queueThread) (r.program hs) env s.node
    (s.moved result.1 time).Sound G ∧
      w.rules.Step (r.op result.2.1) s.node.agenda result.1.agenda := by
  intro result
  rw [hop]
  exact h.unaffected hclock (wp_run (wpWith_counting hr s.node) henv)

lemma create (hs : Handlers) (body : Option CreateJobRequest)
    (hbody : ∀ req ∈ body, ∀ job, hs.requestedJob req env = .ok job →
      s.node.fsm.jobs.lookup job.id = none ∧ (∀ due ∈ job.dueTime, InRange due) ∧
        (job.type = .recurrente → time.tdiv G.gap ≤ job.createdAt.tdiv G.gap)) :
    let result := run (handle queueThread) ((ApiRequest.createJob body).program hs) env s.node
    (s.moved result.1 time).Sound G ∧
      w.rules.Step ((ApiRequest.createJob body).op result.2.1) s.node.agenda result.1.agenda := by
  intro result
  have hresult := run_plain (hs.createJob body) env s.node
  have hleader := (henv 0).1.1
  obtain ⟨b, hle, hge, hstep⟩ := h.inStep_by hclock (.refl _)
  simp only [result, ApiRequest.program, hresult]
  cases body with
  | none =>
    have hrun : run (handle queueThread) (hs.createJob none) env s.node
        = (s.node, .error 400 "Invalid request body", fun i => env (i + 1)) := by
      simp [createJob, handle, hleader]
    rw [hrun]
    exact h.unaffected hclock (.refl _)
  | some req =>
    obtain ⟨shift, hrun⟩ := hs.run_createJob_of_leader req queueThread s.node hleader
    rw [hrun]
    cases hbuilt : hs.requestedJob req env with
    | error err => exact h.unaffected hclock (.refl _)
    | ok job =>
      obtain ⟨hfresh, hrange, hfirst⟩ := hbody req rfl job hbuilt
      have hposted := wp_run (hstep.wp_createValid (h.slot_nonneg.trans hle) hge hs
        hfresh hrange hfirst) fun i => henv (i + shift)
      rcases hposted with ⟨hanswer, hid, ⟨b', hb', hstep'⟩, hcalled, hdossier⟩ | ⟨hanswer, hsame⟩
      · simp only [hanswer, ApiRequest.op]
        exact h.entered hclock ⟨b', by rcases hb' with rfl | rfl <;> omega,
          by rcases hb' with rfl | rfl <;> omega, hstep'⟩ hcalled hid hdossier
      · rw [ApiRequest.op_createJob_of_ne _ hanswer]
        exact h.unaffected hclock hsame

lemma delete (hs : Handlers) (id : String) :
    let result := run (handle queueThread) ((ApiRequest.deleteJob id).program hs) env s.node
    (s.moved result.1 time).Sound G ∧
      w.rules.Step ((ApiRequest.deleteJob id).op result.2.1) s.node.agenda result.1.agenda := by
  intro result
  have hresult := run_plain (hs.deleteJob id) env s.node
  obtain ⟨b, hle, hge, hstep⟩ := h.inStep_by hclock (.refl _)
  simp only [result, ApiRequest.program, hresult]
  rcases wp_run (hstep.wp_deleteRequest hs id) henv with
    ⟨hanswer, hstep', hcalled, hdossier⟩ | ⟨hanswer, hsame⟩
  · simp only [hanswer, ApiRequest.op]
    exact h.struck hclock ⟨b, hle, hge, hstep'⟩ hcalled hdossier
  · rw [ApiRequest.op_deleteJob_of_ne id hanswer]
    exact h.unaffected hclock hsame

lemma cancel (hs : Handlers) (id reason : String) :
    let result := run (handle queueThread) ((ApiRequest.cancelJob id reason).program hs) env s.node
    (s.moved result.1 time).Sound G ∧
      w.rules.Step ((ApiRequest.cancelJob id reason).op result.2.1) s.node.agenda
        result.1.agenda := by
  intro result
  rcases wp_run (InStep.wp_cancelRequest h.waiting id reason) henv with
    ⟨⟨cancelledAt, message, hanswer⟩, hcancels⟩ | ⟨⟨status, message, hanswer⟩, hsame⟩
  · have hanswer : result.2.1 = .cancelled id .cancelled cancelledAt message := hanswer
    rw [hanswer]
    exact h.calledOff hclock (h.inStep_by hclock hcancels.aside) hcancels.called hcancels.dossier
  · have hanswer : result.2.1 = .error status message := hanswer
    rw [hanswer]
    exact h.unaffected hclock hsame

end Leader.Sound

namespace Service

variable {G : WheelGeometry} {hs : Handlers} {w : Worker} {s : Service}

/-- **One occasion**: what the exchange tells is what happens. -/
lemma sound_step (hcron : w.CronAdvances) (hrange : w.CronInRange)
    (hmax : 1 ≤ w.executionManager.maxAttempts) (h : s.leader.Sound G) {x : Visit}
    (hx : s.Admissible hs G.gap x) :
    (s.step hs w x).leader.Sound G ∧ ∃ exchange : Exchange,
      (s.step hs w x).log = s.log ++ [exchange] ∧
      w.rules.Step exchange.op s.leader.node.agenda (s.step hs w x).leader.node.agenda := by
  obtain ⟨occasion, time, env⟩ := x
  obtain ⟨hclock, henv, hoccasion⟩ := hx
  cases occasion with
  | request r =>
    suffices hr : (s.leader.moved (s.served hs r env).1 time).Sound G ∧
        w.rules.Step (r.op (s.served hs r env).2) s.leader.node.agenda
          (s.served hs r env).1.agenda from ⟨hr.1, _, rfl, hr.2⟩
    cases r with
    | createJob body =>
      refine h.create hclock henv hs body fun req hreq => ?_
      obtain rfl := hreq
      exact hoccasion
    | deleteJob id => exact h.delete hclock henv hs id
    | cancelJob id reason => exact h.cancel hclock henv hs id reason
    | getJob id =>
      exact h.read hclock henv hs (counting_withJob id fun _ => trivial) fun _ => rfl
    | getJobStatus id =>
      exact h.read hclock henv hs (counting_getJobStatus id) fun _ => rfl
    | getJobExecutions id =>
      exact h.read hclock henv hs (counting_getJobExecutions id) fun _ => rfl
    | listJobsByStatus statusParam =>
      exact h.read hclock henv hs (counting_listJobsByStatus statusParam) fun _ => rfl
  | pass =>
    have hstep := h.step hcron hrange hmax (x := ⟨.pass, time, env⟩) ⟨hclock, henv, hoccasion⟩
    exact ⟨hstep.1, _, rfl, hstep.2⟩
  | timeouts =>
    have hstep := h.step hcron hrange hmax (x := ⟨.timeouts, time, env⟩) ⟨hclock, henv, trivial⟩
    exact ⟨hstep.1, _, rfl, hstep.2⟩
  | prune retention =>
    have hstep := h.step hcron hrange hmax (x := ⟨.prune retention, time, env⟩)
      ⟨hclock, henv, trivial⟩
    exact ⟨hstep.1, _, rfl, hstep.2⟩

/-- **Whole runs**: the leader stays sound, and its agenda takes the steps that the answers tell. -/
lemma sound_run (hcron : w.CronAdvances) (hrange : w.CronInRange)
    (hmax : 1 ≤ w.executionManager.maxAttempts) {visits : List Visit}
    (hvisits : Run.Along (step hs w) (Admissible hs G.gap) s visits) (h : s.leader.Sound G)
    {start : Agenda.State String Job}
    (hruns : w.rules.Runs (s.log.map Exchange.op) start s.leader.node.agenda) :
    (visits.foldl (step hs w) s).leader.Sound G ∧
      w.rules.Runs ((visits.foldl (step hs w) s).log.map Exchange.op) start
        (visits.foldl (step hs w) s).leader.node.agenda := by
  refine hvisits.invariant (I := fun s => s.leader.Sound G ∧
    w.rules.Runs (s.log.map Exchange.op) start s.leader.node.agenda) ?_ ⟨h, hruns⟩
  rintro s x ⟨h, hruns⟩ hx
  obtain ⟨hsound, exchange, hlog, hstep⟩ := sound_step hcron hrange hmax h hx
  refine ⟨hsound, ?_⟩
  rw [hlog, List.map_append]
  exact hruns.append (.cons hstep (.nil _))

end Service

/-! ## A small service -/

/-- Handlers with room for one job. -/
def tightHandlers : Handlers := { smallHandlers with limitManager := some oneJob }

/-- A request for a one-shot job. -/
def requestFor (id timestamp : String) : CreateJobRequest where
  id := id
  type := .unico
  timestamp := timestamp
  webhookURL := "http://h"

/-- The job in it, if it comes at second 2. -/
def oneShotFor (id : String) (timestamp : ℤ) : Job where
  id := id
  type := .unico
  timestamp := some timestamp
  createdAt := 2
  webhookURL := "http://h"

/-- Something that is over within a second. -/
def calmVisit (occasion : Occasion) (time : ℤ) : Visit := ⟨occasion, time, fun _ => Env.calm time⟩

/-- Two requests, and two passes. -/
def oneAndNoMore : List Visit :=
  [calmVisit (.request (.createJob (some (requestFor "a" "15")))) 2,
    calmVisit (.request (.createJob (some (requestFor "b" "15")))) 2, calmVisit .pass 9,
    calmVisit .pass 15]

/-- What there is to check of a request for a one-shot job. -/
lemma admissible_requestFor (due : ℤ) {timestamp : String} (htime : InRange time)
    (hclock : s.leader.clock ≤ time)
    (hbuilt : tightHandlers.requestedJob (requestFor id timestamp) (fun _ => Env.calm time)
      = .ok { oneShotFor id due with createdAt := time })
    (hfresh : s.leader.node.fsm.jobs.lookup id = none) (hdue : InRange due) :
    s.Admissible tightHandlers 10
      (calmVisit (.request (.createJob (some (requestFor id timestamp)))) time) := by
  refine ⟨hclock, fun _ => duringSlot_calm 10 htime, fun job hjob => ?_⟩
  obtain rfl := Except.ok.inj (hbuilt.symm.trans hjob)
  refine ⟨hfresh, fun t ht => ?_, by simp [oneShotFor]⟩
  obtain rfl := Option.mem_some_iff.mp ht
  exact hdue

lemma admissible_pass (htime : InRange time) (hclock : s.leader.clock ≤ time)
    (hnext : s.leader.lastPass.tdiv 10 = time.tdiv 10 ∨ s.leader.lastPass.tdiv 10 + 1 = time.tdiv 10 ∧
      s.leader.node.NothingLeft 10 (time.tdiv 10)) :
    s.Admissible tightHandlers 10 (calmVisit .pass time) :=
  ⟨hclock, fun _ => duringSlot_calm 10 htime, rfl, hnext⟩

lemma along_oneAndNoMore : Run.Along (Service.step tightHandlers everyMinute)
    (Service.Admissible tightHandlers 10) (Service.new 10000000000 smallConfigs 0) oneAndNoMore := by
  refine ⟨admissible_requestFor 15 ?_ ?_ ?_ ?_ ?_,
    admissible_requestFor 15 ?_ ?_ ?_ ?_ ?_, admissible_pass ?_ ?_ ?_,
    admissible_pass ?_ ?_ ?_, trivial⟩
  all_goals decide +kernel

lemma log_oneAndNoMore :
    (oneAndNoMore.foldl (Service.step tightHandlers everyMinute)
      (Service.new 10000000000 smallConfigs 0)).log
      = [] ++ ⟨.request (.createJob (some (requestFor "a" "15"))), 2,
          some (.plain (.job (oneShotFor "a" 15)))⟩ ::
        [⟨.request (.createJob (some (requestFor "b" "15"))), 2,
          some (.plain (.capacity
            { type := .memory, current := 201, limit := 300, requested := 201 }))⟩,
          ⟨.pass, 9, none⟩, ⟨.pass, 15, none⟩] := by
  decide +kernel

/-! ## Main results -/

section Results

variable {slotGap : Duration} {configs : List WheelLevelConfig} {gap : ℤ} {w : Worker} {start : ℤ}
  {hs : Handlers} {visits : List Visit}

lemma Leader.Given.serves (h : Leader.Given slotGap configs gap w start)
    (hvisits : Run.Along (Service.step hs w) (Service.Admissible hs gap)
      (Service.new slotGap configs start) visits) :
    let s := visits.foldl (Service.step hs w) (Service.new slotGap configs start)
    s.leader.Sound h.chain.geometry ∧
      w.rules.Runs (s.log.map Exchange.op) ⟨fun _ => none, []⟩ s.leader.node.agenda :=
  Service.sound_run h.cronAdvances h.cronInRange h.maxAttempts hvisits
    (.new h.chain h.start_nonneg) (.nil _)

/-- **The answers tell the agenda.** -/
theorem answers_tell_agenda (h : Leader.Given slotGap configs gap w start)
    (hvisits : Run.Along (Service.step hs w) (Service.Admissible hs gap)
      (Service.new slotGap configs start) visits) :
    let s := visits.foldl (Service.step hs w) (Service.new slotGap configs start)
    w.rules.Runs (s.log.map Exchange.op) ⟨fun _ => none, []⟩ s.leader.node.agenda :=
  (h.serves hvisits).2

/-- The second request finds no room. -/
theorem answers_tell_agenda_small :
    let s := oneAndNoMore.foldl (Service.step tightHandlers everyMinute)
      (Service.new 10000000000 smallConfigs 0)
    everyMinute.rules.Runs [.enter (oneShotFor "a" 15), .rest, .pass 9, .pass 15]
        ⟨fun _ => none, []⟩ s.leader.node.agenda ∧
      s.leader.node.called = [oneShotFor "a" 15] := by
  intro s
  have hops : s.log.map Exchange.op = [.enter (oneShotFor "a" 15), .rest, .pass 9, .pass 15] :=
    congrArg (List.map Exchange.op) log_oneAndNoMore
  have hruns := answers_tell_agenda given_small along_oneAndNoMore
  exact ⟨hops ▸ hruns, by decide +kernel⟩

/-- The webhooks of a job whose id was accepted once. -/
lemma Leader.Given.calledUnder_accepted (h : Leader.Given slotGap configs gap w start)
    (hvisits : Run.Along (Service.step hs w) (Service.Admissible hs gap)
      (Service.new slotGap configs start) visits) {before after : List Exchange}
    {body : Option CreateJobRequest} {time : ℤ} {job : Job}
    (hlog : (visits.foldl (Service.step hs w) (Service.new slotGap configs start)).log
      = before ++ ⟨.request (.createJob body), time, some (.plain (.job job))⟩ :: after)
    (honly : ∀ x ∈ before ++ after, ¬ w.rules.Concerns job.id x.op) :
    (visits.foldl (Service.step hs w) (Service.new slotGap configs start)).leader.calledUnder job.id
      = w.rules.occurrences ((after.map Exchange.op).filterMap Agenda.Rules.passTime) job.wire := by
  have hcalls := (h.serves hvisits).2.done_of_id w.keepsIds_rules (by
    intro id entry hentry
    cases hentry) job.id
  rw [hlog, List.map_append, List.map_cons, Agenda.Rules.history_append_of_none] at hcalls
  · exact hcalls.trans (Agenda.Rules.history_enter (R := w.rules) job.wire
      (List.forall_mem_map.mpr fun x hx => honly x (List.mem_append_right before hx)) none)
  · simpa using fun x hx => honly x (List.mem_append_left after hx)

/-- **Accepted, called once.**  A one-shot job that a create request was answered with, under an id
that no other exchange is about, is called by the first pass after that which is not too early, and
by no other. -/
theorem accepted_called_once (h : Leader.Given slotGap configs gap w start)
    (hvisits : Run.Along (Service.step hs w) (Service.Admissible hs gap)
      (Service.new slotGap configs start) visits) {before after : List Exchange}
    {body : Option CreateJobRequest} {time : ℤ} {job : Job} (hjob : job.type = .unico)
    (hlog : (visits.foldl (Service.step hs w) (Service.new slotGap configs start)).log
      = before ++ ⟨.request (.createJob body), time, some (.plain (.job job))⟩ :: after)
    (honly : ∀ x ∈ before ++ after, ¬ w.rules.Concerns job.id x.op) :
    (visits.foldl (Service.step hs w) (Service.new slotGap configs start)).leader.calledUnder job.id
      = if ∃ now ∈ (after.map Exchange.op).filterMap Agenda.Rules.passTime,
          ∃ due ∈ job.timestamp, due ≤ now then [job.wire] else [] := by
  rw [h.calledUnder_accepted hvisits hlog honly, Worker.occurrences_of_unico hjob]

/-- The job that was accepted is called by the second pass. -/
theorem accepted_called_at_fifteen :
    (oneAndNoMore.foldl (Service.step tightHandlers everyMinute)
      (Service.new 10000000000 smallConfigs 0)).leader.calledUnder "a" = [oneShotFor "a" 15] := by
  exact accepted_called_once given_small along_oneAndNoMore rfl log_oneAndNoMore (by decide)

/-- **A stored job waits.**  What the answers put on the agenda under the id, and have not struck out,
is answered with its job, and with the status `cancelled` if it was called off since then and
`pending` if not.  Otherwise no job is found. -/
theorem stored_job_waits (h : Leader.Given slotGap configs gap w start)
    (hvisits : Run.Along (Service.step hs w) (Service.Admissible hs gap)
      (Service.new slotGap configs start) visits) {id : String} (hid : id ≠ "") (env : ℕ → Env) :
    let s := visits.foldl (Service.step hs w) (Service.new slotGap configs start)
    let told := w.rules.entryBy id (s.log.map Exchange.op) none
    (told = none →
      answer queueThread (getJob id) env s.leader.node = .error 404 "Job not found" ∧
      answer queueThread (getJobStatus id) env s.leader.node = .error 404 "Job not found") ∧
    ∀ entry, told = some entry →
      answer queueThread (getJob id) env s.leader.node = .plain (.job entry.item) ∧
      ∃ state, answer queueThread (getJobStatus id) env s.leader.node = .state state ∧
        state.status = if entry.calledOff then .cancelled else .pending := by
  intro s told
  obtain ⟨hsound, hruns⟩ := h.serves hvisits
  have htold : s.leader.node.agenda.plan id = told := hruns.plan_eq id
  rw [← htold]
  constructor
  · intro hnone
    have hlookup : s.leader.node.fsm.jobs.lookup id = none :=
      FSM.dossier_eq_none_iff.mp (Option.map_eq_none_iff.mp hnone)
    simp [answer, getJob, getJobStatus, withJob, hid, handle, FSM.getJob, hlookup]
  · intro entry hentry
    obtain ⟨d, hd, rfl⟩ := Option.map_eq_some_iff.mp hentry
    obtain ⟨hjob, hstatus, -⟩ := FSM.dossier_eq_some hd
    have hwaiting := (hsound.waiting id d hd).2
    refine ⟨?_, ?_⟩
    · simp [answer, getJob, withJob, hid, handle, FSM.getJob, hjob,
        Dossier.entry]
    · have hexpected : d.status = if d.entry.calledOff then .cancelled else .pending := by
        rcases hwaiting with ⟨hpending, -⟩ | hcancelled
        · simp [Dossier.entry, hpending]
        · simp [Dossier.entry, hcancelled]
      rw [← hexpected, ← hstatus]
      cases hstate : s.leader.node.fsm.executionStates.lookup id with
      | some state =>
        refine ⟨state, ?_, (FSM.statusOf_of_lookup hstate).symm⟩
        simp [answer, getJobStatus, withJob, getStatus, hid,
          handle, FSM.getJob, hjob, FSM.getExecutionState, hstate]
      | none =>
        refine ⟨{ jobID := id, status := .pending, createdAt := (env 2).now, attempts := [] }, ?_, ?_⟩
        · simp [answer, getJobStatus, withJob, getStatus,
            hid, handle, FSM.getJob, hjob, FSM.getExecutionState, hstate]
        · simp [FSM.statusOf, hstate]

/-- A job that was accepted and cancelled is found, with its status. -/
theorem stored_job_cancelled :
    let visits := [calmVisit (.request (.createJob (some (requestFor "a" "15")))) 2,
      calmVisit (.request (.cancelJob "a" "r")) 3]
    let n := (visits.foldl (Service.step tightHandlers everyMinute)
      (Service.new 10000000000 smallConfigs 0)).leader.node
    ∃ state, answer queueThread (getJobStatus "a") (fun _ => Env.calm 4) n
      = .state state ∧ state.status = .cancelled := by
  intro visits n
  have hvisits : Run.Along (Service.step tightHandlers everyMinute)
      (Service.Admissible tightHandlers 10) (Service.new 10000000000 smallConfigs 0) visits := by
    refine ⟨admissible_requestFor 15 ?_ ?_ ?_ ?_ ?_, ⟨?_, fun _ => duringSlot_calm 10 ?_, trivial⟩,
      trivial⟩
    all_goals decide +kernel
  have htold : everyMinute.rules.entryBy "a" ((visits.foldl (Service.step tightHandlers everyMinute)
      (Service.new 10000000000 smallConfigs 0)).log.map Exchange.op) none
      = some ⟨oneShotFor "a" 15, true⟩ := by decide +kernel
  exact ((stored_job_waits given_small hvisits (by decide) fun _ => Env.calm 4).2 _ htold).2

end Results

end ScheduledDb
