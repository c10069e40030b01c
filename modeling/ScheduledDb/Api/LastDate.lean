import ScheduledDb.Api.JobHandlers
import ScheduledDb.Slots.Agreement

/-!
# The last date

A recurring job may have a last date.  The worker looks at it when it computes the next time: it
does not create the job anew for a time after the last date.  Nothing compares the last date with
the first time, which comes from the request or from the clock.

* `last_date_respected`: on a stable leader every instance that is executed is scheduled for its
  last date at the latest, if the first instances are; and an instance whose next time would be
  after the last date is the last one, for its job is then neither in the store nor in a slot.
* `executed_after_last_date`: a job is created for a time after its last date, and executed.

The first half is an invariant of all jobs, in the store and executed (`Node.Vetted`), that creating
a job anew cannot break.  For the second half the pass is followed slot by slot (`Gone`); that the
job is in no slot follows from the agreement of index and slots.
-/

namespace ScheduledDb

open Machine Program PersistentSlotQueue Handlers Worker Env

/-- A recurring job is scheduled for its last date at the latest. -/
def Job.InTime (job : Job) : Prop :=
  job.type = .recurrente → ∀ lastDate ∈ job.lastDate, job.createdAt ≤ lastDate

instance (job : Job) : Decidable job.InTime :=
  inferInstanceAs (Decidable (_ → ∀ lastDate ∈ job.lastDate, job.createdAt ≤ lastDate))

variable {now : ℤ} {w : Worker} {job : Job} {n : Node}

/-- A job is created anew for its last date at the latest. -/
lemma Worker.inTime_renewed {job' : Job} (h : w.renewed now job = some job') : job'.wire.InTime := by
  obtain ⟨-, hnext, rfl⟩ := renewed_eq_some h
  intro _ lastDate hlast
  change job.lastDate = some lastDate at hlast
  change w.calculateNextExecution job now ≤ lastDate
  unfold calculateNextExecution at hnext ⊢
  cases hcron : w.cron job.cronExpr with
  | none => simp [hcron] at hnext
  | some next =>
    simp only [hcron, hlast] at hnext ⊢
    split_ifs at hnext ⊢ with hlate
    · omega
    · omega

/-! ## Steps beside the jobs -/

/-- The same jobs, slots and queue, and no webhook more. -/
structure Node.Alike (n n' : Node) : Prop where
  jobs : n'.fsm.jobs = n.fsm.jobs
  slots : n.fsm.SameSlots n'.fsm
  queue : n'.queue = n.queue
  called : n'.called = n.called

lemma Node.Alike.handle {n' : Node} (h : n.Alike n') {β : Type} {a : Act β} (ha : Bystanding β a)
    (thread : ℕ) (e : Env) : n.Alike (ScheduledDb.handle thread β a e n').1 := by
  cases a with
  | raftApply cmd =>
    simp only [ScheduledDb.handle]
    split_ifs
    · have hslots := FSM.sameSlots_apply ha.1 n'.fsm e.faults
      refine ⟨(FSM.jobs_apply ha.2.1 ha.2.2 n'.fsm e.faults).trans h.jobs,
        ⟨hslots.slots.trans h.slots.slots, hslots.coldSlotMeta.trans h.slots.coldSlotMeta,
          hslots.coldStore.trans h.slots.coldStore⟩, h.queue, ?_⟩
      rw [← h.called]
      simp [Node.called, Node.applyCommand, Event.calledJob]
    · exact h
  | queue f => exact ha.elim
  | executeWebhook job => exact ha.elim
  | statusChanged oldStatus newStatus =>
    refine ⟨h.jobs, h.slots, h.queue, ?_⟩
    rw [← h.called]
    simp [ScheduledDb.handle, Node.called, Node.record, Event.calledJob]
  | _ => exact h

lemma wpWith_bystanding {thread : ℕ} {guard : ∀ β : Type, Act β → Env → Node → Prop} {α : Type}
    {p : Program Act α} (hp : All Bystanding p) (n : Node) :
    wpWith (demonic (handle thread) guard) p (fun _ n' => n.Alike n') n :=
  hp.invariant (fun _ e _ ha _ hn' => hn'.handle ha thread e) ⟨rfl, ⟨rfl, rfl, rfl⟩, rfl, rfl⟩

/-- A check for timeouts is about execution states only. -/
lemma Worker.bystanding_checkTimeouts (w : Worker) : All Bystanding w.checkTimeouts := by
  simp only [checkTimeouts, perform_bind, all_step, all_ite]
  refine ⟨trivial, fun _ => ⟨fun _ => All.bind ?_ fun _ => trivial, fun _ => trivial⟩⟩
  have hdetached := StatusTracker.all_checkTimeouts (P := fun cmd => cmd.LeavesSlots ∧
    cmd.type ≠ .createJob ∧ cmd.type ≠ .deleteJob) w.executionManager.statusTracker
    w.inProgressTimeout fun sc _ => by simp [Command.LeavesSlots, FSM.statusUpdate]
  refine hdetached.mono fun a ha => ?_
  cases a with
  | raftApply cmd => exact ha
  | queue f => exact ha
  | executeWebhook job => exact ha
  | _ => trivial

/-! ## Properties of all jobs -/

/-- All jobs in the store have the property, and had it when their webhooks were started. -/
structure Node.Vetted (V : Job → Prop) (n : Node) : Prop where
  stored : ∀ id job, n.fsm.jobs.lookup id = some job → V job
  called : ∀ job ∈ n.called, V job

namespace Node.Vetted

variable {V : Job → Prop} {thread : ℕ} {n : Node} {w : Worker}

lemma of_same {n' : Node} (h : n.Vetted V) (hjobs : n'.fsm.jobs = n.fsm.jobs)
    (hcalled : n'.called = n.called) : n'.Vetted V :=
  ⟨by rw [hjobs]; exact h.stored, by rw [hcalled]; exact h.called⟩

lemma bystanding (h : n.Vetted V) {α : Type} {p : Program Act α} (hp : All Bystanding p) :
    wp (handle thread) Stable p (fun _ => Vetted V) n :=
  wp_mono (wpWith_bystanding hp n) fun _ _ h' => h.of_same h'.jobs h'.called

lemma createJob (h : n.Vetted V) {job : Job} (hjob : V job.wire) :
    wp (handle thread) Stable (Store.createJob jobEventHandler job) (fun _ => Vetted V) n := by
  have hquiet : All (Quiet fun _ => True) (Store.createJob jobEventHandler job) :=
    Store.all_createJob (fun ev j => Store.quiet_mono (all_jobEventHandler ev j) fun _ _ => trivial)
      trivial
  have hstored : wp (handle thread) Stable (Store.createJob jobEventHandler job)
      (fun _ n' => ∀ id stored, n'.fsm.jobs.lookup id = some stored → V stored) n := by
    refine wpWith_createJob (fun _ _ _ he => he) fun e n' _ hsame id stored hstored => ?_
    rw [hsame.jobs, FSM.apply_createJob, Finmap.lookup_insert_ite] at hstored
    split_ifs at hstored
    · exact Option.some.inj hstored ▸ hjob
    · exact h.stored id stored hstored
  exact wp_mono (wpWith_and hstored (wpWith_called hquiet n)) fun _ n' h' =>
    ⟨h'.1, h'.2 ▸ h.called⟩

lemma deleteJob (h : n.Vetted V) (id : String) :
    wp (handle thread) Stable (Store.deleteJob jobEventHandler id) (fun _ => Vetted V) n := by
  have hquiet : All (Quiet fun _ => True) (Store.deleteJob jobEventHandler id) :=
    Store.all_deleteJob (fun ev j => Store.quiet_mono (all_jobEventHandler ev j) fun _ _ => trivial)
      trivial
  have hstored : wp (handle thread) Stable (Store.deleteJob jobEventHandler id)
      (fun _ n' => ∀ id stored, n'.fsm.jobs.lookup id = some stored → V stored) n := by
    refine wpWith_deleteJob (fun _ _ _ he => he) fun e n' _ hsame id' stored hstored => ?_
    rw [hsame.jobs] at hstored
    exact h.stored id' stored (FSM.lookup_of_deleteJob hstored)
  exact wp_mono (wpWith_and hstored (wpWith_called hquiet n)) fun _ n' h' =>
    ⟨h'.1, h'.2 ▸ h.called⟩

lemma getNextSlot (h : n.Vetted V) :
    wp (handle thread) Stable getNextSlot
      (fun slot n' => n'.Vetted V ∧ ∀ s, slot = some s → FromSlot n' s) n := by
  refine wp_mono (wpWith_and (wpWith_called all_getNextSlot n) (wpWith_getNextSlot n)) ?_
  exact fun _ n' h' => ⟨h.of_same h'.2.1.jobs h'.1, h'.2.2⟩

/-- The jobs of a slot are executed as they were read from the store, and created anew with the
property. -/
lemma processSlot (hV : ∀ now job job', V job → w.renewed now job = some job' → V job'.wire)
    (now : ℤ) {s : Slot} (hslot : FromSlot n s) (h : n.Vetted V) :
    wp (handle thread) Stable (w.processSlot now s) (fun _ => Vetted V) n := by
  have hjobs : ∀ job ∈ due now s.jobs, V job := by
    intro job hjob
    obtain ⟨id, hid⟩ := hslot.fromStore job (List.mem_of_mem_filter hjob)
    exact h.stored id job hid
  refine wp_mono (w.wp_processSlot now s n) ?_
  rintro _ n' ⟨⟨l, hl, hsub⟩, hlookup⟩
  refine ⟨fun id job hjob => ?_, fun job hjob => ?_⟩
  · rcases hlookup id job hjob with ⟨hold, -⟩ | ⟨old, hold, job', hrenewed, -, rfl⟩
    · exact h.stored id job hold
    · exact hV now old job' (hjobs old hold) hrenewed
  · rw [hl] at hjob
    rcases List.mem_append.mp hjob with hjob | hjob
    · exact h.called job hjob
    · exact hjobs job (hsub.subset hjob)

lemma processSlots (hV : ∀ now job job', V job → w.renewed now job = some job' → V job'.wire)
    (h : n.Vetted V) : wp (handle thread) Stable w.processSlots (fun _ => Vetted V) n := by
  rw [Worker.processSlots, perform_bind, wp_step]
  exact fun e _ => Worker.wpWith_processLoop demonic_mono (fun _ h => h.getNextSlot)
    (fun _ _ h hslot => processSlot hV e.now hslot h) 10 h

end Node.Vetted

/-! ## Jobs that are gone -/

/-- The jobs whose webhooks the pass that began in `n0` has started are gone from the store, if they
have no next time. -/
def Gone (w : Worker) (now : ℤ) (n0 n : Node) : Prop :=
  ∃ l, n.called = n0.called ++ l ∧ ∀ job ∈ l, job.id ≠ "" → w.renewed now job = none →
    n.fsm.jobs.lookup job.id = none

section Gone

variable {w : Worker} {now : ℤ} {n0 n : Node}

lemma wpWith_filed {thread : ℕ} {guard : ∀ β : Type, Act β → Env → Node → Prop} {α : Type}
    (p : Program Act α) (h : n.fsm.Filed) :
    wpWith (demonic (handle thread) guard) p (fun _ n' => n'.fsm.Filed) n :=
  all_true.invariant (fun _ e _ _ _ hn' => handle_keeps thread hn' fun cmd _ =>
    hn'.apply e.faults cmd) h

lemma Gone.getNextSlot (h : Gone w now n0 n) :
    wp (handle workerThread) Stable getNextSlot
      (fun slot n' => Gone w now n0 n' ∧ ∀ s, slot = some s → FromSlot n' s) n := by
  refine wp_mono (wpWith_and (wpWith_called all_getNextSlot n) (wpWith_getNextSlot n)) ?_
  rintro slot n' ⟨hcalled, hsame, hslot⟩
  obtain ⟨l, hl, hgone⟩ := h
  refine ⟨⟨l, hcalled.trans hl, ?_⟩, hslot⟩
  rw [hsame.jobs]
  exact hgone

/-- A job that is gone stays so: it is not among the jobs of the slot.  One of the slot goes, and it
does not come back, because the slot's jobs of one id are all the same. -/
lemma Gone.processSlot (hfiled : n.fsm.Filed) {s : Slot} (hslot : FromSlot n s)
    (h : Gone w now n0 n) :
    wp (handle workerThread) Stable (w.processSlot now s) (fun _ => Gone w now n0) n := by
  have hread : ∀ job ∈ due now s.jobs, n.fsm.jobs.lookup job.id = some job :=
    fun job hjob => hslot.lookup hfiled (List.mem_of_mem_filter hjob)
  refine wp_mono (w.wp_processSlot now s n) ?_
  rintro _ n' ⟨⟨l', hl', hsub⟩, hlookup⟩
  obtain ⟨l, hl, hgone⟩ := h
  refine ⟨l ++ l', by rw [hl', hl, List.append_assoc], fun job hjob hid hnone => ?_⟩
  by_contra hfound
  obtain ⟨found, hfound⟩ := Option.ne_none_iff_exists'.mp hfound
  rcases hlookup job.id found hfound with ⟨hold, hnot⟩ | ⟨old, hold, job', hrenewed, heq, -⟩
  · rcases List.mem_append.mp hjob with hjob | hjob
    · simp [hgone job hjob hid hnone] at hold
    · exact hid (hnot (List.mem_map_of_mem (hsub.subset hjob)))
  · obtain ⟨-, -, rfl⟩ := renewed_eq_some hrenewed
    have hthere : n.fsm.jobs.lookup job.id = some old := heq ▸ hread old hold
    rcases List.mem_append.mp hjob with hjob | hjob
    · simp [hgone job hjob hid hnone] at hthere
    · obtain rfl := Option.some.inj (hthere.symm.trans (hread job (hsub.subset hjob)))
      simp [hnone] at hrenewed

lemma gone_processSlots (hfiled : n0.fsm.Filed) {env : ℕ → Env} (henv : ∀ i, (env i).Stable) :
    Gone w (env 0).now n0 (run (handle workerThread) w.processSlots env n0).1 := by
  have hstart : Gone w (env 0).now n0 n0 := ⟨[], (List.append_nil _).symm, by simp⟩
  have hloop := wpWith_processLoop
    (T := demonic (handle workerThread) fun _ _ e _ => e.Stable) demonic_mono
    (I := fun n => n.fsm.Filed ∧ Gone w (env 0).now n0 n) (J := fun s n => FromSlot n s)
    (fun n h => wpWith_mono demonic_mono
      (wpWith_and (wpWith_filed getNextSlot h.1) h.2.getNextSlot)
      fun _ _ h' => ⟨⟨h'.1, h'.2.1⟩, h'.2.2⟩)
    (fun s n h hslot => wpWith_and (wpWith_filed _ h.1) (h.2.processSlot h.1 hslot)) 10
    ⟨hfiled, hstart⟩
  rw [run_processSlots]
  exact (wp_run hloop fun i => henv (i + 1)).2

end Gone

/-! ## Runs of a leader -/

/-- What happens to a leader: requests, and ticks of its worker. -/
inductive LeaderOp where
  | post (body : Option CreateJobRequest)
  | delete (id : String)
  | tick (tick : Worker.Tick)

namespace LeaderOp

def program (h : Handlers) (w : Worker) : LeaderOp → Program Act Unit
  | post body => h.createJob body >>= fun _ => pure ()
  | delete id => h.deleteJob id >>= fun _ => pure ()
  | tick t => w.tick t

/-- The job of a create request is as it should be, in the state in which the request comes. -/
def Posts (h : Handlers) (C : Job → Node → Prop) (op : LeaderOp) (env : ℕ → Env) (n : Node) :
    Prop :=
  match op with
  | post (some req) =>
    match h.requestedJob req env with
    | .ok job => C job n
    | .error _ => True
  | _ => True

instance (h : Handlers) (C : Job → Node → Prop) [∀ job n, Decidable (C job n)] (op : LeaderOp)
    (env : ℕ → Env) (n : Node) : Decidable (op.Posts h C env n) :=
  match op with
  | post (some req) =>
    match hjob : h.requestedJob req env with
    | .ok job => decidable_of_iff (C job n) (by simp [Posts, hjob])
    | .error _ => isTrue (by simp [Posts, hjob])
  | post none => isTrue trivial
  | delete _ => isTrue trivial
  | tick _ => isTrue trivial

variable {h : Handlers} {w : Worker} {C : Job → Node → Prop} {n : Node} {env : ℕ → Env}

lemma Posts.of_ok {req : CreateJobRequest} {job : Job} (hop : (post (some req)).Posts h C env n)
    (hjob : h.requestedJob req env = .ok job) : C job n := by
  simpa [Posts, hjob] using hop

/-- **One operation.**  It keeps what creating the requested job, deleting a job and a pass of the
worker keep, and all that leaves jobs and slots alone. -/
lemma run_of {I : Node → Prop} (op : LeaderOp) (henv : ∀ i, (env i).Stable) (hn : I n)
    (hstep : ∀ {α : Type} {p : Program Act α}, All Bystanding p → ∀ n : Node, I n →
      wp (handle workerThread) Stable p (fun _ => I) n)
    (hpost : ∀ req job, op = post (some req) → h.requestedJob req env = .ok job →
      wp (handle workerThread) Stable (h.createValid job) (fun _ => I) n) (hdelete : ∀ id n, I n →
      wp (handle workerThread) Stable (Store.deleteJob jobEventHandler id) (fun _ => I) n)
    (hslots : wp (handle workerThread) Stable w.processSlots (fun _ => I) n) :
    I (run (handle workerThread) (op.program h w) env n).1 := by
  cases op with
  | post body =>
    rw [program, run_bind]
    refine h.run_createJob_of body henv hn fun req hreq job hjob => ?_
    obtain rfl : body = some req := hreq
    exact hpost req job rfl hjob
  | delete id =>
    rw [program, run_bind]
    exact wp_run (wpWith_deleteJob_of demonic_mono hstep h id (hdelete id) hn) henv
  | tick t =>
    cases t with
    | slots => exact wp_run hslots henv
    | timeouts => exact wp_run (hstep w.bystanding_checkTimeouts n hn) henv

lemma vetted_run {V : Job → Prop}
    (hV : ∀ now job job', V job → w.renewed now job = some job' → V job'.wire)
    (hC : ∀ job n, job.id ≠ "" → C job n → V job.wire) (op : LeaderOp)
    (henv : ∀ i, (env i).Stable) (hop : op.Posts h C env n) (hn : n.Vetted V) :
    (run (handle workerThread) (op.program h w) env n).1.Vetted V := by
  have hstep : ∀ {α : Type} {p : Program Act α}, All Bystanding p → ∀ n : Node,
      n.Vetted V → wp (handle workerThread) Stable p (fun _ => Node.Vetted V) n :=
    fun hp _ hn => hn.bystanding hp
  refine op.run_of henv hn hstep ?_ (fun id _ hn => hn.deleteJob id) (hn.processSlots hV)
  rintro req job rfl hjob
  exact wpWith_createValid_of demonic_mono hstep hstep (fun _ h' => h') h
    (fun hid _ h' => h'.createJob (hC job n hid (hop.of_ok hjob))) hn

/-- The id of the job is not in use, and its time is a 64-bit number. -/
def Fresh (job : Job) (n : Node) : Prop :=
  n.fsm.jobs.lookup job.id = none ∧ ∀ timestamp ∈ job.dueTime, InRange timestamp

instance (job : Job) (n : Node) : Decidable (Fresh job n) :=
  inferInstanceAs (Decidable (_ ∧ ∀ timestamp ∈ job.dueTime, InRange timestamp))

lemma inOrder_bystanding {gap : ℤ} (hn : InOrder gap none n) {α : Type} {p : Program Act α}
    (hp : All Bystanding p) : wp (handle workerThread) Stable p (fun _ => InOrder gap none) n :=
  wp_mono (wpWith_bystanding hp n) fun _ _ h' =>
    hn.of_same (queueView_of_sameSlots h'.slots h'.queue)
      (h'.slots.coldStore.trans hn.noCold) h'.jobs

/-- While ids in use are not created, the index and the slots agree. -/
lemma inOrder_run {gap : ℤ} (hgap : 0 < gap) (hcron : w.CronInRange) (op : LeaderOp)
    (henv : ∀ i, (env i).Stable) (hop : op.Posts h Fresh env n) (hn : InOrder gap none n) :
    InOrder gap none (run (handle workerThread) (op.program h w) env n).1 := by
  have hstep : ∀ {α : Type} {p : Program Act α}, All Bystanding p → ∀ n : Node,
      InOrder gap none n → wp (handle workerThread) Stable p (fun _ => InOrder gap none) n :=
    fun hp _ hn => inOrder_bystanding hn hp
  refine op.run_of henv hn hstep ?_
    (fun id _ hn => wp_mono (hn.wp_deleteJob id) fun _ _ h' => h'.1) (hn.wp_processSlots hgap hcron)
  rintro req job rfl hjob
  obtain ⟨hfresh, hrange⟩ := hop.of_ok hjob
  -- until the job is stored, its id stays unused
  have hstep' : ∀ {α : Type} {p : Program Act α}, All Bystanding p → ∀ n : Node,
      InOrder gap none n ∧ n.fsm.jobs.lookup job.id = none →
      wp (handle workerThread) Stable p
        (fun _ n' => InOrder gap none n' ∧ n'.fsm.jobs.lookup job.id = none) n :=
    fun hp n hn => wp_mono (wpWith_and (inOrder_bystanding hn.1 hp) (wpWith_bystanding hp n))
      fun _ _ h' => ⟨h'.1, h'.2.jobs ▸ hn.2⟩
  exact wpWith_createValid_of demonic_mono hstep' hstep (fun _ h' => h'.1) h
    (fun _ _ h' => wp_mono (h'.1.wp_createJob hgap hrange (h'.1.lookup_of_unused h'.2))
      fun _ _ h'' => h''.1) ⟨hn, hfresh⟩

end LeaderOp

/-! ## Last dates -/

/-- The next time of the job would be after its last date. -/
def Worker.EndsWith (w : Worker) (now : ℤ) (job : Job) : Prop :=
  ∃ next ∈ w.cron job.cronExpr, ∃ lastDate ∈ job.lastDate, lastDate < next now

lemma Worker.EndsWith.renewed (h : w.EndsWith now job) : w.renewed now job = none := by
  obtain ⟨next, hcron, lastDate, hlast, hlate⟩ := h
  have hcron : w.cron job.cronExpr = some next := hcron
  have hlast : job.lastDate = some lastDate := hlast
  have hzero : w.calculateNextExecution job now = 0 := by
    simp [calculateNextExecution, hcron, hlast, hlate]
  simp [Worker.renewed, hzero]

/-- The job is neither in the store nor in a slot. -/
structure Node.Lacks (n : Node) (id : String) : Prop where
  store : n.fsm.jobs.lookup id = none
  slots : ∀ key slot, n.fsm.slots.lookup key = some slot → id ∉ slot.jobIDs

/-- If the index agrees with the slots, a job that is not in the store is in no slot. -/
lemma InOrder.lacks {gap : ℤ} (h : InOrder gap none n) {id : String}
    (hid : n.fsm.jobs.lookup id = none) : n.Lacks id := by
  refine ⟨hid, fun key slot hslot hmem => ?_⟩
  have hindex := (h.indexAgrees.index id key).mpr ⟨slot, hslot, hmem⟩
  simp [h.lookup_of_unused hid] at hindex

/-- Everything is filed under its own name, no id is empty, and the index and the slots agree. -/
structure Node.InShape (gap : ℤ) (n : Node) : Prop where
  filed : n.fsm.Filed
  named : n.Vetted fun job => job.id ≠ ""
  inOrder : InOrder gap none n

namespace Node.InShape

variable {gap : ℤ} {n : Node} {w : Worker}

lemma renewed_named (now : ℤ) (job job' : Job) (hid : job.id ≠ "")
    (hrenewed : w.renewed now job = some job') : job'.wire.id ≠ "" := by
  obtain ⟨-, -, rfl⟩ := renewed_eq_some hrenewed
  exact hid

lemma run_op (hgap : 0 < gap) (hcron : w.CronInRange) {h : Handlers} (op : LeaderOp)
    {env : ℕ → Env} (henv : ∀ i, (env i).Stable) (hop : op.Posts h LeaderOp.Fresh env n)
    (hn : n.InShape gap) : (run (handle workerThread) (op.program h w) env n).1.InShape gap where
  filed := Store.run_invariant (fun _ faults cmd hf => hf.apply faults cmd) _ _ _ hn.filed
  named := op.vetted_run renewed_named (fun _ _ hid _ => hid) henv hop hn.named
  inOrder := op.inOrder_run hgap hcron henv hop hn.inOrder

/-- The slots list an id at most once. -/
lemma nodup_slot (h : n.InShape gap) {s : Slot} (hslot : FromSlot n s) :
    (s.jobs.map Job.id).Nodup := by
  obtain ⟨tier, key, slotData, hfound, hjobs⟩ := hslot
  rw [hjobs]
  refine List.Nodup.sublist (map_id_sublist h.filed.jobs slotData.jobIDs) ?_
  cases tier with
  | hot => exact h.inOrder.indexAgrees.nodup key slotData hfound
  | cold => simp [FSM.slotAt, FSM.coldCopy_of_none h.inOrder.noCold] at hfound

/-- **The last instance in a slot**: whether the webhook is started or not, the job is gone. -/
lemma wp_processSlot (hgap : 0 < gap) (hcron : w.CronInRange) (now : ℤ) {s : Slot}
    (hslot : FromSlot n s) (h : n.InShape gap) :
    wp (handle workerThread) Stable (w.processSlot now s)
      (fun _ n' => ∀ job ∈ due now s.jobs, w.EndsWith now job → n'.Lacks job.id) n := by
  have hthere : ∀ job ∈ due now s.jobs, n.fsm.jobs.lookup job.id = some job :=
    fun job hjob => hslot.lookup h.filed (List.mem_of_mem_filter hjob)
  refine wp_mono (wpWith_and (w.wp_processSlot now s n)
    (h.inOrder.wp_processSlot hgap hcron (h.nodup_slot hslot))) ?_
  rintro _ n' ⟨⟨-, hlookup⟩, horder⟩ job hjob hends
  refine horder.lacks ?_
  by_contra hfound
  obtain ⟨found, hfound⟩ := Option.ne_none_iff_exists'.mp hfound
  rcases hlookup job.id found hfound with ⟨-, hnot⟩ | ⟨old, hold, job', hrenewed, heq, -⟩
  · exact h.named.stored job.id job (hthere job hjob) (hnot (List.mem_map_of_mem hjob))
  · obtain ⟨-, -, rfl⟩ := renewed_eq_some hrenewed
    have hsame : n.fsm.jobs.lookup job.id = some old := heq ▸ hthere old hold
    obtain rfl := Option.some.inj (hsame.symm.trans (hthere job hjob))
    simp [hends.renewed] at hrenewed

end Node.InShape

/-- **The last date is respected** in every run of a stable leader.

Whatever is executed is scheduled for its last date at the latest, if this holds for the jobs that
are there and for those that are created.

If the index and the slots agree at the beginning and no job is created whose id is in use, an
instance whose next time would be after the last date is the last one: when a pass has executed it,
the job is neither in the store nor in a slot.  This holds for every slot that is processed, also if
the execution is refused. -/
theorem last_date_respected (h : Handlers) (w : Worker) (hcron : w.CronInRange) (gap : ℤ)
    (hgap : 0 < gap) (ops : List LeaderOp) (n : Node) (env : ℕ → Env) (henv : ∀ i, (env i).Stable) :
    let r := run (handle workerThread) (forEach ops (LeaderOp.program h w)) env n
    let r' := run (handle workerThread) w.processSlots r.2.2 r.1
    (n.Vetted Job.InTime →
      Each (handle workerThread) (LeaderOp.Posts h fun job _ => job.InTime) (LeaderOp.program h w)
        ops env n →
      ∀ job ∈ r.1.called, job.InTime) ∧
    (n.InShape gap →
      Each (handle workerThread) (LeaderOp.Posts h LeaderOp.Fresh) (LeaderOp.program h w)
        ops env n →
      (∀ job ∈ r'.1.called.drop r.1.called.length, w.EndsWith (r.2.2 0).now job →
        r'.1.Lacks job.id) ∧
      ∀ now s, FromSlot r.1 s → ∀ job ∈ due now s.jobs, w.EndsWith now job →
        (run (handle workerThread) (w.processSlot now s) r.2.2 r.1).1.Lacks job.id) := by
  intro r r'
  constructor
  · intro hn hops
    have hend : r.1.Vetted Job.InTime := Each.run_of_forall (fun op env' n' henv' hop hn' =>
      op.vetted_run (fun _ _ _ _ hrenewed => inTime_renewed hrenewed)
        (fun _ _ _ hjob => hjob) henv' hop hn') henv hops hn
    exact hend.called
  · intro hn hops
    have h1 : r.1.InShape gap := Each.run_of_forall (fun op env' n' henv' hop hn' =>
      hn'.run_op hgap hcron op henv' hop) henv hops hn
    have henv1 : ∀ i, (r.2.2 i).Stable := fun i => by
      obtain ⟨j, hj⟩ := run_env (forEach ops (LeaderOp.program h w)) env n i
      exact hj ▸ henv j
    refine ⟨fun job hjob hends => ?_, fun now s hslot => ?_⟩
    · have hgone : Gone w (r.2.2 0).now r.1 r'.1 := gone_processSlots h1.filed henv1
      have hnamed : r'.1.Vetted fun job => job.id ≠ "" :=
        wp_run (h1.named.processSlots Node.InShape.renewed_named) henv1
      have horder : InOrder gap none r'.1 := wp_run (h1.inOrder.wp_processSlots hgap hcron) henv1
      have hid : job.id ≠ "" := hnamed.called job (List.mem_of_mem_drop hjob)
      obtain ⟨l, hl, hall⟩ := hgone
      rw [hl, List.drop_left] at hjob
      exact horder.lacks (hall job hjob hid hends.renewed)
    · exact wp_run (h1.wp_processSlot hgap hcron now hslot) henv1

/-- Handlers without limits, which know times as numbers only and take every cron expression. -/
def openHandlers : Handlers where
  parsers := ⟨fun _ _ => none, fun _ => none⟩
  limitManager := none
  sanitizeError := fun err => err

/-- A request for a recurring job. -/
def recurringRequest (timestamp lastDate : String) : CreateJobRequest where
  id := "a"
  type := .recurrente
  timestamp := timestamp
  cronExpr := "* * * * *"
  lastDate := lastDate
  webhookURL := "http://h"

/-- The job of such a request. -/
def recurringJob (createdAt lastDate : ℤ) : Job where
  id := "a"
  type := .recurrente
  cronExpr := "* * * * *"
  lastDate := some lastDate
  createdAt := createdAt
  webhookURL := "http://h"

/-- A job for second 5 whose last date is second 60: it is executed in a pass at second 7, and once
more at second 61. -/
theorem last_date_respected_at_sixty :
    let ops : List LeaderOp := [.post (some (recurringRequest "5" "60")), .tick .slots]
    let r := run (handle workerThread) (forEach ops (LeaderOp.program openHandlers everyMinute))
      (fun i => calm (if i < 16 then 0 else if i < 81 then 7 else 61)) freshNode
    let r' := run (handle workerThread) everyMinute.processSlots r.2.2 r.1
    r.1.called = [recurringJob 5 60] ∧ (∀ job ∈ r.1.called, job.InTime) ∧
      r'.1.called = [recurringJob 5 60, recurringJob 60 60] ∧
      r'.1.Lacks "a" := by
  intro ops r r'
  have hcalled : r.1.called = [recurringJob 5 60] := by decide +kernel
  have hcalled' : r'.1.called = [recurringJob 5 60, recurringJob 60 60] := by decide +kernel
  have hmem : recurringJob 60 60 ∈ r'.1.called.drop r.1.called.length := by
    rw [hcalled, hcalled']
    exact List.mem_cons_self
  have hends : everyMinute.EndsWith (r.2.2 0).now (recurringJob 60 60) := by
    have hlate : 60 < nextMinute (r.2.2 0).now := by decide +kernel
    exact ⟨nextMinute, rfl, 60, rfl, hlate⟩
  have hvetted : ∀ V, freshNode.Vetted V := fun V =>
    ⟨by simp [freshNode, newFSM], by simp [freshNode, Node.called]⟩
  have hstart : freshNode.InShape 10 := ⟨FSM.filed_newFSM, hvetted _, InOrder.new (by decide) _⟩
  obtain ⟨hinTime, hlast⟩ := last_date_respected openHandlers everyMinute
    everyMinute_cronInRange 10 (by decide) ops freshNode
    (fun i => calm (if i < 16 then 0 else if i < 81 then 7 else 61)) fun i => ⟨rfl, rfl⟩
  have hgone := (hlast hstart (by decide +kernel)).1 (recurringJob 60 60) hmem hends
  exact ⟨hcalled, hinTime (hvetted _) (by decide +kernel), hcalled', hgone⟩

/-- **An instance after the last date**: the job is created for second 5, though its last date is
second 3, and the pass at second 7 executes it. -/
theorem executed_after_last_date :
    let ops : List LeaderOp := [.post (some (recurringRequest "5" "3")), .tick .slots]
    let r := run (handle workerThread) (forEach ops (LeaderOp.program openHandlers everyMinute))
      (fun i => calm (if i < 16 then 0 else 7)) freshNode
    r.1.called = [recurringJob 5 3] ∧ ¬ (recurringJob 5 3).InTime := by
  decide +kernel

end ScheduledDb
