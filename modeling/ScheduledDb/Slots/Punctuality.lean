import ScheduledDb.Core.Agenda
import ScheduledDb.Slots.Dossiers

/-!
# A leader is a scheduler

What store, slot queue, timing wheel, worker and status tracker do together, on a stable leader
without cold spilling, is what an agenda does (`ScheduledDb.Core.Agenda`): a job is entered when it
is created, struck out when it is deleted, called off when it is cancelled, and a pass of the worker
carries out everything that is due.

The wheel forgets slots that are over.  So a pass in a slot has to follow one in the same slot, or
one in the slot before it after which nothing was left there.

* **`InStep`**: index, slots, wheel and jobs fit together; every operation keeps this.
* **`InStep.wp_pass`**: what a pass does to all dossiers, and which webhooks it starts.

Runs are in `ScheduledDb.Slots.LeaderRun`.
-/

namespace ScheduledDb

open Machine Program PersistentSlotQueue FSM List Option

/-! ## Order -/

@[simp] lemma Job.dueTime_wire (job : Job) : job.wire.dueTime = job.dueTime := rfl

/-- Index, slots, wheel and jobs fit together. -/
structure InStep (G : WheelGeometry) (b : ℤ) (n : Node) : Prop where
  order : InOrder G.gap none n
  watch : OnWatch G b n
  indexed : ∀ id, n.queue.jobToSlot.lookup id
    = ((n.fsm.jobs.lookup id).bind Job.dueTime).map fun time => time.tdiv G.gap

namespace InStep

variable {G : WheelGeometry} {b K : ℤ} {n n' : Node}

lemma of_aside (h : InStep G b n) (haside : Aside n n') : InStep G b n' := by
  have hcold : n'.fsm.coldStore = none := haside.slots.coldStore.trans h.watch.noCold
  refine ⟨?_, ?_, ?_⟩
  · exact h.order.of_same (queueView_of_sameSlots haside.slots haside.queue) hcold haside.jobs
  · exact h.watch.of_same haside.slots.slots hcold (by rw [haside.queue]) (by rw [haside.queue])
  · rw [haside.queue, haside.jobs]
    exact h.indexed

/-- A job with a due time is in a slot. -/
lemma exists_slot (h : InStep G b n) {id : String} {job : Job}
    (hjob : n.fsm.jobs.lookup id = some job)
    {time : ℤ} (htime : job.dueTime = some time) :
    ∃ data, n.fsm.slots.lookup (time.tdiv G.gap) = some data ∧ id ∈ data.jobIDs := by
  have hindex : n.queue.jobToSlot.lookup id = some (time.tdiv G.gap) := by
    rw [h.indexed, hjob, bind_some, htime]
    rfl
  exact (h.order.indexAgrees.index id _).mp hindex

/-- What a slot lists is due in it. -/
lemma due_of_mem (h : InStep G b n) {key : ℤ} {data : SlotData}
    (hdata : n.fsm.slots.lookup key = some data) {id : String} (hid : id ∈ data.jobIDs) :
    ∃ job time, n.fsm.jobs.lookup id = some job ∧ job.dueTime = some time ∧
      time.tdiv G.gap = key := by
  have hindex := (h.order.indexAgrees.index id key).mpr ⟨data, hdata, hid⟩
  rw [h.indexed] at hindex
  obtain ⟨time, hbind, hkey⟩ := map_eq_some_iff.mp hindex
  obtain ⟨job, hjob, htime⟩ := bind_eq_some_iff.mp hbind
  exact ⟨job, time, hjob, htime, hkey⟩

/-! ## Operations -/

/-- **A job is created.** -/
lemma wp_createJob (h : InStep G b n) (hb : 0 ≤ b) (hbK : b ≤ K) {job : Job}
    (hfresh : n.fsm.jobs.lookup job.id = none)
    (hdue : ∀ time ∈ job.dueTime, K ≤ time.tdiv G.gap ∧ InRange time) :
    wp (handle queueThread) (DuringSlot G.gap K) (Store.createJob jobEventHandler job)
      (fun _ n' => (∃ b', (b' = b ∨ b' = K) ∧ InStep G b' n') ∧ n'.called = n.called ∧
        ∀ id, n'.fsm.dossier id = if id = job.id then some (newDossier job) else n.fsm.dossier
          id) n := by
  have hstable : ∀ {β : Type} (a : Act β) (e : Env) (n : Node), DuringSlot G.gap K e → e.Stable :=
    fun _ e _ he => he.1
  have hunused := h.order.lookup_of_unused hfresh
  have horder : wp (handle queueThread) (DuringSlot G.gap K) (Store.createJob jobEventHandler job)
      (fun _ n' => InOrder G.gap none n') n :=
    wp_mono ((h.order.wp_createJob G.gap_pos (fun time htime => (hdue time htime).2) hunused).guarded
      fun _ _ _ he => he.1) fun _ _ h' => h'.1
  have hrest : wp (handle queueThread) (DuringSlot G.gap K) (Store.createJob jobEventHandler job)
      (fun _ n' => (∃ b', (b' = b ∨ b' = K) ∧ OnWatch G b' n') ∧
        n'.queue.jobToSlot
          = (job.dueTime.map fun time => n.queue.jobToSlot.insert job.id (time.tdiv G.gap)).getD
              n.queue.jobToSlot ∧
        ∃ faults, Undisclosed
          (n.applyCommand queueThread faults { type := .createJob, job := some job }) n') n := by
    refine wp_bind.mpr (Store.wpWith_propose hstable fun e _ => ?_)
    have hslots : n.fsm.SameSlots (n.fsm.apply e.faults { type := .createJob, job := some job }).1 :=
      sameSlots_apply (by simp [Command.LeavesSlots]) n.fsm e.faults
    have hwatch : OnWatch G b
        (n.applyCommand queueThread e.faults { type := .createJob, job := some job }) :=
      h.watch.of_same hslots.slots (hslots.coldStore.trans h.watch.noCold) rfl rfl
    refine wp_bind.mpr (wpWith_handler hstable ?_)
    refine wp_mono (wpWith_and (hwatch.wp_addJob hb hbK hdue)
      (wpWith_slotCommands (all_addJob job) _)) ?_
    rintro _ n' ⟨⟨hb', hindex⟩, hsame⟩
    exact ⟨hb', hindex, e.faults, hsame⟩
  refine wp_mono (wpWith_and horder hrest) ?_
  rintro _ n' ⟨horder', ⟨b', hb', hwatch⟩, hindex, faults, hsame⟩
  have hdossier : ∀ id, n'.fsm.dossier id
      = if id = job.id then some (newDossier job) else n.fsm.dossier id := by
    intro id
    rw [hsame.dossier id, Node.applyCommand_fsm, dossier_createJob]
  refine ⟨⟨b', hb', horder', hwatch, fun id => ?_⟩,
    hsame.called.trans (called_applyCommand ..), hdossier⟩
  have hjobs : n'.fsm.jobs.lookup id = if id = job.id then some job.wire else
    n.fsm.jobs.lookup id := by
    rw [hsame.lookup, Node.applyCommand_fsm, apply_createJob, Finmap.lookup_insert_ite]
  rw [hindex, hjobs]
  by_cases hid : id = job.id
  · subst hid
    rw [if_pos rfl, bind_some, Job.dueTime_wire]
    cases job.dueTime with
    | none => exact hunused
    | some time => exact Finmap.lookup_insert _
  · rw [if_neg hid, ← h.indexed]
    cases job.dueTime with
    | none => rfl
    | some time => exact Finmap.lookup_insert_of_ne _ hid

section Removal

variable {ok : Env → Prop} (hok : ∀ e, ok e → e.Stable)

include hok

/-- **A job is deleted.** -/
lemma wp_deleteJob (h : InStep G b n) {id : String} (hid : id ≠ "" ∨ n.fsm.dossier id = none) :
    wp (handle queueThread) ok (Store.deleteJob jobEventHandler id)
      (fun _ n' => InStep G b n' ∧ n'.called = n.called ∧
        ∀ id', n'.fsm.dossier id' = if id' = id then none else n.fsm.dossier id') n := by
  have hstable : ∀ {β : Type} (a : Act β) (e : Env) (n : Node), ok e → e.Stable :=
    fun _ e _ he => hok e he
  have horder : wp (handle queueThread) ok (Store.deleteJob jobEventHandler id)
      (fun _ n' => InOrder G.gap none n' ∧ Drops id n n') n :=
    (h.order.wp_deleteJob id).guarded fun _ e _ he => hok e he
  have hrest : wp (handle queueThread) ok (Store.deleteJob jobEventHandler id)
      (fun _ n' => OnWatch G b n' ∧ ∃ faults, Undisclosed
        (n.applyCommand queueThread faults { type := .deleteJob, id := id }) n') n := by
    refine Store.wpWith_deleteJob hstable fun e _ => ?_
    have hslots : n.fsm.SameSlots (n.fsm.apply e.faults { type := .deleteJob, id := id }).1 :=
      sameSlots_apply (by simp [Command.LeavesSlots]) n.fsm e.faults
    have hwatch : OnWatch G b
        (n.applyCommand queueThread e.faults { type := .deleteJob, id := id }) :=
      h.watch.of_same hslots.slots (hslots.coldStore.trans h.watch.noCold) rfl rfl
    refine wp_mono (wpWith_and (wpWith_handler hstable ?_)
      (wpWith_slotCommands (Store.all_notify all_jobEventHandler _ _) _)) fun _ n' h' =>
        ⟨h'.1, e.faults, h'.2⟩
    cases n.fsm.getJob id with
    | none => exact hwatch
    | some job => exact hwatch.wp_removeJob hok job.id
  refine wp_mono (wpWith_and horder hrest) ?_
  rintro _ n' ⟨⟨horder', hdrops⟩, hwatch, faults, hsame⟩
  have hdossier : ∀ id', n'.fsm.dossier id' = if id' = id then none else n.fsm.dossier id' := by
    intro id'
    rw [hsame.dossier id', Node.applyCommand_fsm]
    by_cases hempty : id = ""
    · have hnone := hid.resolve_left fun hne => hne hempty
      subst hempty
      rw [apply_deleteJob_empty]
      split_ifs with hid'
      · rw [hid', hnone]
      · rfl
    · exact dossier_deleteJob n.fsm faults hempty id'
  refine ⟨⟨horder', hwatch, fun id' => ?_⟩, hsame.called.trans (called_applyCommand ..), hdossier⟩
  rw [hdrops id']
  split_ifs with hid'
  · rw [dossier_eq_none_iff.mp (by rw [hdossier id', if_pos hid'])]
    rfl
  · rw [h.indexed, lookup_of_dossier (by rw [hdossier id', if_neg hid'])]

/-- Taking a job that is not in the store out of the queue changes nothing that matters. -/
lemma wp_removeJob (h : InStep G b n) {id : String} (hid : n.fsm.dossier id = none) :
    wp (handle queueThread) ok (removeJob id) (fun _ n' => InStep G b n' ∧ Undisclosed n n') n := by
  have horder : wp (handle queueThread) ok (removeJob id)
      (fun _ n' => InOrder G.gap none n' ∧ Drops id n n') n :=
    (h.order.wp_removeJob (by simp)).guarded fun _ e _ he => hok e he
  refine wp_mono (wpWith_and horder (wpWith_and (h.watch.wp_removeJob hok id)
    (wpWith_slotCommands (all_removeJob id) n))) ?_
  rintro _ n' ⟨⟨horder', hdrops⟩, hwatch, hsame⟩
  refine ⟨⟨horder', hwatch, fun id' => ?_⟩, hsame⟩
  rw [hdrops id', hsame.lookup]
  split_ifs with hid'
  · rw [hid', dossier_eq_none_iff.mp hid]
    rfl
  · exact h.indexed id'

lemma wp_removeExecuted (h : InStep G b n) {id : String} (hid : id ≠ "") :
    wp (handle queueThread) ok (Worker.removeExecuted id)
      (fun _ n' => InStep G b n' ∧ n'.called = n.called ∧
        ∀ id', n'.fsm.dossier id' = if id' = id then none else n.fsm.dossier id') n := by
  refine wp_bind.mpr (Store.wpWith_ifLeader (fun _ e _ he => hok e he)
    (wp_mono (h.wp_deleteJob hok (Or.inl hid)) ?_))
  rintro _ n1 ⟨h1, hcalled, hdossier⟩
  refine wp_mono (h1.wp_removeJob hok (by rw [hdossier, if_pos rfl])) ?_
  rintro _ n2 ⟨h2, hsame⟩
  exact ⟨h2, hsame.called.trans hcalled, fun id' => (hsame.dossier id').trans (hdossier id')⟩

/-- The executed jobs of a slot are removed. -/
lemma wp_removeAll (h : InStep G b n) {ids : List String} (hids : ∀ id ∈ ids, id ≠ "") :
    wp (handle queueThread) ok (forEach ids Worker.removeExecuted)
      (fun _ n' => InStep G b n' ∧ n'.called = n.called ∧
        ∀ id', n'.fsm.dossier id' = if id' ∈ ids then none else n.fsm.dossier id') n := by
  induction ids generalizing n with
  | nil => exact ⟨h, rfl, fun id' => by simp⟩
  | cons id ids ih =>
    refine wp_seq (h.wp_removeExecuted hok (hids id mem_cons_self)) ?_
    rintro _ n1 ⟨h1, hcalled1, hdossier1⟩
    refine wp_mono (ih h1 fun id' hid' => hids id' (mem_cons_of_mem id hid')) ?_
    rintro _ n2 ⟨h2, hcalled2, hdossier2⟩
    refine ⟨h2, hcalled2.trans hcalled1, fun id' => ?_⟩
    rw [hdossier2 id', hdossier1 id']
    by_cases hmem : id' ∈ ids
    · simp [hmem]
    · by_cases heq : id' = id
      · simp [heq]
      · simp [hmem, heq]

end Removal

/-- Jobs are created anew, for times that are still to come. -/
lemma wp_rescheduleAll (h : InStep G K n) (hK : 0 ≤ K) {jobs : List Job}
    (hnodup : (jobs.map Job.id).Nodup) (hfresh : ∀ job ∈ jobs, n.fsm.dossier job.id = none)
    (hdue : ∀ job ∈ jobs, ∀ time ∈ job.dueTime, K ≤ time.tdiv G.gap ∧ InRange time) :
    wp (handle queueThread) (DuringSlot G.gap K) (forEach jobs Worker.reschedule)
      (fun _ n' => InStep G K n' ∧ n'.called = n.called ∧
        (∀ job ∈ jobs, n'.fsm.dossier job.id = some (newDossier job)) ∧
        ∀ id, id ∉ jobs.map Job.id → n'.fsm.dossier id = n.fsm.dossier id) n := by
  induction jobs generalizing n with
  | nil => exact ⟨h, rfl, by simp, fun _ _ => rfl⟩
  | cons job jobs ih =>
    obtain ⟨hfirst, hrest⟩ := nodup_cons.mp hnodup
    have hothers : ∀ job' ∈ jobs, job'.id ≠ job.id := fun job' hjob' heq =>
      hfirst (heq ▸ mem_map_of_mem hjob')
    refine wp_bind.mpr (Store.wpWith_ifLeader (fun _ e _ he => he.1) (wp_mono
      (h.wp_createJob hK le_rfl (dossier_eq_none_iff.mp (hfresh job mem_cons_self))
        (hdue job mem_cons_self)) ?_))
    rintro _ n1 ⟨⟨b', hb', h1⟩, hcalled1, hdossier1⟩
    obtain rfl : b' = K := by simpa using hb'
    have hfresh1 : ∀ job' ∈ jobs, n1.fsm.dossier job'.id = none := by
      intro job' hjob'
      rw [hdossier1, if_neg (hothers job' hjob')]
      exact hfresh job' (mem_cons_of_mem job hjob')
    refine wp_mono (ih h1 hrest hfresh1 fun job' hjob' =>
      hdue job' (mem_cons_of_mem job hjob')) ?_
    rintro _ n2 ⟨h2, hcalled2, hnew2, hold2⟩
    refine ⟨h2, hcalled2.trans hcalled1, fun job' hjob' => ?_, fun id hid => ?_⟩
    · rcases mem_cons.mp hjob' with rfl | hjob'
      · rw [hold2 _ hfirst, hdossier1, if_pos rfl]
      · exact hnew2 job' hjob'
    · rw [map_cons, mem_cons, not_or] at hid
      rw [hold2 id hid.2, hdossier1, if_neg hid.1]

end InStep

/-! ## The agenda of a node -/

/-- Jobs as things on an agenda. -/
def Worker.rules (w : Worker) : Agenda.Rules String Job where
  id := Job.id
  due := Job.dueTime
  next := fun now job => (w.renewed now job).map Job.wire

def Dossier.entry (d : Dossier) : Agenda.Entry Job := ⟨d.job, d.status = .cancelled⟩

/-- What is on the agenda: the jobs in the store, called off if they are cancelled. -/
def FSM.plan (f : FSM) (id : String) : Option (Agenda.Entry Job) := (f.dossier id).map Dossier.entry

/-- The agenda of a node; what has been carried out are the webhooks that were started. -/
def Node.agenda (n : Node) : Agenda.State String Job := ⟨n.fsm.plan, n.called⟩

namespace Worker

variable {w : Worker} {now : ℤ} {job : Job} {d : Option Dossier} {d' : Dossier}

/-- A job is executed if it is due. -/
lemma shouldExecuteJob_iff : shouldExecuteJob job now = true ↔ ∃ time ∈ job.dueTime, time ≤ now := by
  unfold shouldExecuteJob Job.dueTime
  cases job.type with
  | unico =>
    cases job.timestamp with
    | none => simp
    | some timestamp => simp
  | recurrente => simp
  | other text => simp

lemma due_iff : w.rules.Due now job ↔ shouldExecuteJob job now = true := shouldExecuteJob_iff.symm

/-- What a pass makes of a dossier. -/
def passed (w : Worker) (now : ℤ) (d : Option Dossier) : Option Dossier :=
  d.bind fun d =>
    if shouldExecuteJob d.job now = true then (w.renewed now d.job).map newDossier else some d

/-- On the agenda that is what it should be. -/
lemma map_entry_passed (d : Option Dossier) (id : String) :
    (w.passed now d).map Dossier.entry = w.rules.entryAfter id (.pass now) (d.map Dossier.entry) := by
  cases d with
  | none => rfl
  | some d =>
    simp only [passed, Agenda.Rules.entryAfter, map_some, bind_some, due_iff]
    by_cases hdue : shouldExecuteJob d.job now = true
    · have hdue' : shouldExecuteJob d.entry.item now = true := hdue
      rw [if_pos hdue, if_pos hdue', Option.map_map, rules]
      simp only [Option.map_map]
      rfl
    · have hdue' : ¬ shouldExecuteJob d.entry.item now = true := hdue
      rw [if_neg hdue, if_neg hdue', map_some]

lemma passed_of_not_due (h : ∀ d', d = some d' → shouldExecuteJob d'.job now = false) :
    w.passed now d = d := by
  cases d with
  | none => rfl
  | some d => simp [passed, h d rfl]

/-- What a pass has put on the agenda is not due in the same pass. -/
lemma CronAdvances.not_due_of_passed (hcron : w.CronAdvances) (h : w.passed now d = some d') :
    shouldExecuteJob d'.job now = false := by
  obtain ⟨d0, rfl, hd'⟩ := bind_eq_some_iff.mp h
  split_ifs at hd' with hdue
  · obtain ⟨job', hjob', rfl⟩ := map_eq_some_iff.mp hd'
    exact hcron.not_due hjob'
  · rw [← some.inj hd']
    simpa using hdue

/-- Nothing but waiting jobs is left. -/
lemma waiting_of_passed (h : w.passed now d = some d') (hwaiting : ∀ d0, d = some d0 → d0.Waiting) :
    d'.Waiting := by
  obtain ⟨d0, rfl, hd'⟩ := bind_eq_some_iff.mp h
  split_ifs at hd'
  · obtain ⟨job', -, rfl⟩ := map_eq_some_iff.mp hd'
    exact waiting_newDossier job'
  · rw [← some.inj hd']
    exact hwaiting d0 rfl

/-- The jobs to be called of a list: those that are due and not called off. -/
def toCall (now : ℤ) (f : FSM) (jobs : List Job) : List Job :=
  (due now jobs).filter fun job => f.plan job.id = some ⟨job, false⟩

lemma toCall_congr {f f' : FSM} {jobs : List Job}
    (h : ∀ job ∈ jobs, f'.dossier job.id = f.dossier job.id) :
    toCall now f' jobs = toCall now f jobs := by
  refine filter_congr fun job hjob => ?_
  rw [plan, plan, h job (mem_of_mem_filter hjob)]

end Worker

/-! ## Passes -/

namespace InStep

open Worker

variable {G : WheelGeometry} {b K : ℤ} {n n' : Node} {w : Worker} {now : ℤ} {d : Dossier}
  {jobs : List Job} {data : SlotData}

/-- One execution, of a job that waits. -/
lemma wp_execute (em : ExecutionManager) (hmax : 1 ≤ em.maxAttempts) {job : Job}
    (hd : n.fsm.dossier job.id = some d) (hjob : d.job = job) (hwaiting : d.Waiting) :
    wp (handle queueThread) Env.Stable (em.execute job)
      (fun _ n' => n'.called = n.called
          ++ (if n.fsm.plan job.id = some ⟨job, false⟩ then [job] else []) ∧
        ExecutionManager.LeavesOthers job.id n n') n := by
  have hplan : n.fsm.plan job.id = some d.entry := by rw [plan, hd, map_some]
  refine wpWith_and ?_ (em.wp_execute_others job n)
  rcases hwaiting with ⟨hpending, hcount⟩ | hcancelled
  · have hcalled : n.fsm.plan job.id = some ⟨job, false⟩ := by
      rw [hplan, Dossier.entry, hjob, hpending]
      rfl
    rw [if_pos hcalled]
    have hstarts : em.Starts d := by
      rw [ExecutionManager.Starts, hpending, hcount]
      exact ⟨rfl, by omega⟩
    exact wp_mono (em.wp_execute_started (fun _ he => he) hd hstarts) fun _ _ h' => h'.1
  · have hoff : n.fsm.plan job.id ≠ some ⟨job, false⟩ := by
      rw [hplan, Dossier.entry, hcancelled]
      simp
    rw [if_neg hoff, append_nil]
    refine wp_mono (em.wp_execute_idle hd ?_) fun _ _ h' => congrArg Node.called h'
    rw [ExecutionManager.Starts, hcancelled]
    rintro ⟨hexec, -⟩
    cases hexec

/-- The jobs of a slot, one after the other: those that are due and not called off are called, and
the dossiers of those that are not due are left alone. -/
lemma wp_processJobs (hmax : 1 ≤ w.executionManager.maxAttempts) (hnodup : (jobs.map Job.id).Nodup)
    (hjobs : ∀ job ∈ jobs, ∃ d, n.fsm.dossier job.id = some d ∧ d.job = job ∧ d.Waiting)
    (round : Round) :
    wp (handle queueThread) Env.Stable (foldEach jobs (w.processJob now) round)
      (fun _ n' => n'.called = n.called ++ toCall now n.fsm jobs ∧
        ∀ id, id ∉ (due now jobs).map Job.id → n'.fsm.dossier id = n.fsm.dossier id) n := by
  induction jobs generalizing n round with
  | nil => exact ⟨by simp [toCall, due], fun _ _ => rfl⟩
  | cons job jobs ih =>
    obtain ⟨hfirst, hrest⟩ := nodup_cons.mp hnodup
    have hothers : ∀ job' ∈ jobs, job'.id ≠ job.id := fun job' hjob' heq =>
      hfirst (heq ▸ mem_map_of_mem hjob')
    have htail : ∀ job' ∈ jobs, ∃ d, n.fsm.dossier job'.id = some d ∧ d.job = job' ∧ d.Waiting :=
      fun job' hjob' => hjobs job' (mem_cons_of_mem job hjob')
    rw [foldEach]
    refine wp_bind.mpr (wp_ite.mpr ⟨fun hdue => wp_bind.mpr ?_, fun hnot => ?_⟩)
    · obtain ⟨d, hd, hjob, hwaiting⟩ := hjobs job mem_cons_self
      refine wp_mono (wp_execute w.executionManager hmax hd hjob hwaiting) ?_
      rintro _ n1 ⟨hcalled1, hleaves⟩
      have hsame : ∀ job' ∈ jobs, n1.fsm.dossier job'.id = n.fsm.dossier job'.id :=
        fun job' hjob' => hleaves job'.id (hothers job' hjob')
      have hjobs1 : ∀ job' ∈ jobs, ∃ d, n1.fsm.dossier job'.id = some d ∧
        d.job = job' ∧ d.Waiting := by
        intro job' hjob'
        rw [hsame job' hjob']
        exact htail job' hjob'
      rw [pure_eq, wp_done]
      refine wp_mono (ih hrest hjobs1 _) ?_
      rintro _ n2 ⟨hcalled2, hdossier2⟩
      refine ⟨?_, fun id hid => ?_⟩
      · rw [hcalled2, hcalled1, toCall_congr hsame, append_assoc]
        congr 1
        rw [toCall, toCall, due_cons, if_pos hdue, filter_cons]
        by_cases hplan : n.fsm.plan job.id = some ⟨job, false⟩
        · simp [hplan]
        · simp [hplan]
      · rw [due_cons, if_pos hdue, map_cons, mem_cons, not_or] at hid
        rw [hdossier2 id hid.2, hleaves id hid.1]
    · rw [toCall, due_cons, if_neg hnot]
      exact ih hrest htail _

/-- The jobs of a slot of the present. -/
structure SlotJobs (n : Node) (now : ℤ) (jobs : List Job) : Prop where
  nodup : (jobs.map Job.id).Nodup
  stored : ∀ job ∈ jobs, ∃ d, n.fsm.dossier job.id = some d ∧ d.job = job
  complete : ∀ id d, n.fsm.dossier id = some d → shouldExecuteJob d.job now = true →
    d.job ∈ jobs ∧ d.job.id = id

/-- Every live job waits, and has a name. -/
def AllWaiting (n : Node) : Prop :=
  ∀ id d, n.fsm.dossier id = some d → id ≠ "" ∧ d.Waiting

/-- **The jobs of a slot** are executed, removed and created anew. -/
lemma wp_processSlot (hcron : w.CronAdvances) (hrange : w.CronInRange)
    (hmax : 1 ≤ w.executionManager.maxAttempts) (h : InStep G K n) (hK : 0 ≤ K)
    (hnow : now.tdiv G.gap = K) (hwaiting : AllWaiting n) {s : Slot} (hs : SlotJobs n now s.jobs) :
    wp (handle queueThread) (DuringSlot G.gap K) (w.processSlot now s)
      (fun _ n' => InStep G K n' ∧ n'.called = n.called ++ toCall now n.fsm s.jobs ∧
        ∀ id, n'.fsm.dossier id = w.passed now (n.fsm.dossier id)) n := by
  have hok : ∀ e, DuringSlot G.gap K e → e.Stable := fun _ he => he.1
  have hstored : ∀ job ∈ due now s.jobs, ∃ d, n.fsm.dossier job.id = some d ∧ d.job = job :=
    fun job hjob => hs.stored job (mem_of_mem_filter hjob)
  -- executing them
  have hexecute : wp (handle queueThread) (DuringSlot G.gap K)
      (foldEach s.jobs (w.processJob now) {}) (fun round n' => (InStep G K n' ∧
        w.Noted now (due now s.jobs) {} round) ∧ n'.called = n.called ++ toCall now n.fsm s.jobs ∧
        ∀ id, id ∉ (due now s.jobs).map Job.id → n'.fsm.dossier id = n.fsm.dossier id) n := by
    refine wpWith_and ?_ ((wp_processJobs hmax hs.nodup (fun job hjob => ?_) {}).guarded
      fun _ e _ he => he.1)
    · refine wp_mono (w.wpWith_processJobs now s.jobs (I := InStep G K) (fun job _ n' hn' => ?_) {} h)
        fun _ _ h' => ⟨h'.1, h'.2.1⟩
      exact wpWith_mono demonic_mono (wpWith_aside (w.executionManager.sidelined_execute job) n')
        fun _ _ haside => hn'.of_aside haside
    · obtain ⟨d, hd, hjob'⟩ := hs.stored job hjob
      exact ⟨d, hd, hjob', (hwaiting job.id d hd).2⟩
  refine wp_seq hexecute ?_
  rintro round n1 ⟨⟨h1, hnoted⟩, hcalled1, hdossier1⟩
  have hremoved : round.jobsToRemove = (due now s.jobs).map Job.id := hnoted.removed
  have hrescheduled : round.jobsToReschedule = (due now s.jobs).filterMap (w.renewed now) :=
    hnoted.rescheduled
  rw [hremoved, hrescheduled]
  have hids := w.map_id_renewed_sublist now (due now s.jobs)
  -- removing them
  have hnamed : ∀ id ∈ (due now s.jobs).map Job.id, id ≠ "" := by
    intro id hid
    obtain ⟨job, hjob, rfl⟩ := mem_map.mp hid
    obtain ⟨d, hd, -⟩ := hstored job hjob
    exact (hwaiting job.id d hd).1
  refine wp_seq (h1.wp_removeAll hok hnamed) ?_
  rintro _ n2 ⟨h2, hcalled2, hdossier2⟩
  -- creating them anew
  have hdistinct := (hs.nodup.sublist (filter_sublist.map _)).sublist hids
  refine wp_seq (h2.wp_rescheduleAll hK hdistinct ?_ ?_) ?_
  · intro job hjob
    rw [hdossier2, if_pos (hids.subset (mem_map_of_mem hjob))]
  · intro job hjob time htime
    obtain ⟨old, -, hold⟩ := mem_filterMap.mp hjob
    obtain ⟨htype, hnext, rfl⟩ := renewed_eq_some hold
    have hlater := hcron.lt hnext
    obtain rfl : w.calculateNextExecution old now = time := by
      simpa [Job.dueTime, htype] using htime
    refine ⟨?_, hrange.calculateNextExecution old now⟩
    rw [← hnow]
    exact Int.tdiv_le_tdiv G.gap_pos hlater.le
  rintro _ n3 ⟨h3, hcalled3, hnew3, hold3⟩
  refine ⟨h3, by rw [hcalled3, hcalled2, hcalled1], fun id => ?_⟩
  cases hd : n.fsm.dossier id with
  | none =>
    have hnot : id ∉ (due now s.jobs).map Job.id := by
      intro hid
      obtain ⟨job, hjob, rfl⟩ := mem_map.mp hid
      obtain ⟨d, hd', -⟩ := hstored job hjob
      simp [hd] at hd'
    rw [hold3 id fun hid => hnot (hids.subset hid), hdossier2, if_neg hnot, hdossier1 id hnot, hd]
    rfl
  | some d =>
    simp only [passed, bind_some]
    split_ifs with hdue
    · obtain ⟨hmem, hid⟩ := hs.complete id d hd hdue
      have hmemDue : d.job ∈ due now s.jobs := mem_filter.mpr ⟨hmem, hdue⟩
      cases hrenewed : w.renewed now d.job with
      | none =>
        have hnot : id ∉ ((due now s.jobs).filterMap (w.renewed now)).map Job.id := by
          intro hin
          obtain ⟨job, hjob, hjobid⟩ := mem_map.mp hin
          obtain ⟨old, hold, hjob'⟩ := mem_filterMap.mp hjob
          -- a job created anew has the id of the old one, which is `d`'s
          obtain ⟨-, -, rfl⟩ := renewed_eq_some hjob'
          obtain ⟨d', hd', rfl⟩ := hstored old hold
          have hidOld : d'.job.id = id := hjobid
          rw [hidOld, hd] at hd'
          obtain rfl := some.inj hd'
          simp [hrenewed] at hjob'
        rw [hold3 id hnot, hdossier2, if_pos (hid ▸ mem_map_of_mem hmemDue)]
        rfl
      | some job' =>
        have hjob' : job' ∈ (due now s.jobs).filterMap (w.renewed now) :=
          mem_filterMap.mpr ⟨d.job, hmemDue, hrenewed⟩
        have hid' : job'.id = id := by
          obtain ⟨-, -, rfl⟩ := renewed_eq_some hrenewed
          exact hid
        rw [← hid', hnew3 job' hjob', map_some]
    · have hnot : id ∉ (due now s.jobs).map Job.id := by
        intro hin
        obtain ⟨job, hjob, rfl⟩ := mem_map.mp hin
        obtain ⟨d', hd', rfl⟩ := hstored job hjob
        rw [hd] at hd'
        obtain rfl := some.inj hd'
        exact hdue (mem_filter.mp hjob).2
      rw [hold3 id fun hid => hnot (hids.subset hid), hdossier2, if_neg hnot, hdossier1 id hnot, hd]

/-- The slot of a job that is due is that of the present. -/
lemma lookup_of_due (h : InStep G K n) (hnow : now.tdiv G.gap = K) {id : String}
    (hd : n.fsm.dossier id = some d) (hdue : shouldExecuteJob d.job now = true) :
    ∃ data, n.fsm.slots.lookup K = some data ∧ id ∈ data.jobIDs := by
  obtain ⟨time, htime, hle⟩ := shouldExecuteJob_iff.mp hdue
  obtain ⟨data, hdata, hid⟩ := h.exists_slot (dossier_eq_some hd).1 htime
  have hkey : time.tdiv G.gap = K := by
    refine le_antisymm ?_ (h.watch.ahead _ (h.watch.held _ data hdata))
    rw [← hnow]
    exact Int.tdiv_le_tdiv G.gap_pos hle
  exact ⟨data, hkey ▸ hdata, hid⟩

/-- The jobs that the slot of the present lists. -/
lemma slotJobs (h : InStep G K n) (hnow : now.tdiv G.gap = K)
    (hdata : n.fsm.slots.lookup K = some data) :
    SlotJobs n now (data.jobIDs.filterMap n.fsm.jobs.lookup) := by
  refine ⟨?_, fun job hjob => ?_, fun id d hd hdue => ?_⟩
  · exact (h.order.indexAgrees.nodup K data hdata).sublist (map_id_sublist h.order.filed _)
  · obtain ⟨id, -, hid⟩ := mem_filterMap.mp hjob
    obtain rfl := h.order.filed id job hid
    exact ⟨_, dossier_of_lookup hid, rfl⟩
  · obtain ⟨hlookup, -, -⟩ := dossier_eq_some hd
    obtain ⟨data', hdata', hid⟩ := h.lookup_of_due hnow hd hdue
    obtain rfl := some.inj (hdata.symm.trans hdata')
    exact ⟨mem_filterMap.mpr ⟨id, hid, hlookup⟩, h.order.filed id d.job hlookup⟩

/-- What `GetNextSlot` finds in slot `K`. -/
lemma wp_getNextSlot (h : InStep G b n) (hK : OnWatch.Follows K b n) :
    wp (handle queueThread) (DuringSlot G.gap K) getNextSlot
      (fun slot n' => InStep G K n' ∧ Undisclosed n n' ∧ OnWatch.NextIn K n' slot) n := by
  have hagrees := h.order.indexAgrees
  have horder : wp (handle queueThread) (DuringSlot G.gap K) getNextSlot
      (fun _ n' => InOrder G.gap none n') n :=
    wp_mono (h.order.wp_getNextSlot.guarded fun _ _ _ he => he.1) fun _ _ h' => h'.1
  refine wp_mono (wpWith_and horder (wpWith_and (h.watch.wp_getNextSlot hK hagrees.nonempty)
    (wpWith_slotCommands all_getNextSlot n))) ?_
  rintro slot n' ⟨horder', ⟨hwatch, hfsm, hindex, hnext⟩, hsame⟩
  refine ⟨⟨horder', hwatch, ?_⟩, hsame, hnext⟩
  rw [hindex, hfsm]
  exact h.indexed

/-- A slot of the present that is in the store has jobs. -/
lemma filterMap_ne_nil (h : InStep G K n) (hdata : n.fsm.slots.lookup K = some data) :
    data.jobIDs.filterMap n.fsm.jobs.lookup ≠ [] := by
  obtain ⟨id, hid⟩ := exists_mem_of_ne_nil _ (h.order.indexAgrees.nonempty K data hdata)
  obtain ⟨job, -, hjob, -⟩ := h.due_of_mem hdata hid
  exact ne_nil_of_mem (mem_filterMap.mpr ⟨id, hid, hjob⟩)

/-- **The slot that a pass works on**: the one of the present, with all its jobs, or none that has
begun, and then nothing is due. -/
lemma cases_nextIn (h : InStep G K n) (hnow : now.tdiv G.gap = K) (hpos : 0 ≤ now)
    {slot : Option Slot} (hslot : OnWatch.NextIn K n slot) :
    (∃ s, slot = some s ∧ s.minTime ≤ now ∧ SlotJobs n now s.jobs) ∨
      (∀ s, slot = some s → now < s.minTime) ∧
        ∀ id d, n.fsm.dossier id = some d → shouldExecuteJob d.job now = false := by
  have hgap := G.gap_pos
  have hnow' : now / G.gap = K := by rwa [← Int.tdiv_eq_ediv_of_nonneg hpos]
  rcases hslot with ⟨data, hdata, hjobs⟩ | ⟨hnone, hlater⟩
  · refine Or.inl ⟨_, hjobs (h.filterMap_ne_nil hdata), ?_, h.slotJobs hnow hdata⟩
    show data.minTime ≤ now
    rw [h.order.indexAgrees.minTime K data hdata, ← hnow']
    exact Int.ediv_mul_le now hgap.ne'
  · refine Or.inr ⟨fun s hs => ?_, fun id d hd => ?_⟩
    · obtain ⟨k, data, hk, hdata, hmin⟩ := hlater s hs
      rw [hmin, h.order.indexAgrees.minTime k data hdata]
      exact (Int.ediv_lt_iff_lt_mul hgap).mp (by omega)
    · by_contra hdue
      obtain ⟨data, hdata, -⟩ := h.lookup_of_due hnow hd (by simpa using hdue)
      simp [hnone] at hdata

/-- Once nothing is due any more, the rest of a pass does nothing. -/
lemma wp_processLoop_idle (hcron : w.CronAdvances) (hrange : w.CronInRange)
    (hmax : 1 ≤ w.executionManager.maxAttempts) (h : InStep G K n) (hK : 0 ≤ K)
    (hnow : now.tdiv G.gap = K) (hwaiting : AllWaiting n)
    (hidle : ∀ id d, n.fsm.dossier id = some d → shouldExecuteJob d.job now = false) (left : ℕ) :
    wp (handle queueThread) (DuringSlot G.gap K) (w.processLoop now left)
      (fun _ n' => InStep G K n' ∧ Undisclosed n n') n := by
  refine Worker.wpWith_processLoop demonic_mono (I := fun n' => InStep G K n' ∧ Undisclosed n n')
    (J := fun s n' => FromSlot n' s ∧ (s.jobs.map Job.id).Nodup) (fun n' hn' => ?_)
    (fun s n' hn' hs => ?_) left ⟨h, Undisclosed.refl n⟩
  · have hnodup : wp (handle queueThread) (DuringSlot G.gap K) getNextSlot
        (fun slot _ => ∀ s, slot = some s → (s.jobs.map Job.id).Nodup) n' :=
      wp_mono (hn'.1.order.wp_getNextSlot.guarded fun _ _ _ he => he.1) fun _ _ h' => h'.2
    refine wp_mono (wpWith_and (hn'.1.wp_getNextSlot (Or.inl rfl)) (wpWith_and hnodup
      (wpWith_getNextSlot n'))) ?_
    rintro slot n1 ⟨⟨h1, hsame, -⟩, hdistinct, -, hfrom⟩
    exact ⟨⟨h1, hn'.2.trans hsame⟩, fun s hs => ⟨hfrom s hs, hdistinct s hs⟩⟩
  · obtain ⟨hn', hsame⟩ := hn'
    have hnone : ∀ id d, n'.fsm.dossier id = some d → shouldExecuteJob d.job now = false :=
      fun id d hd => hidle id d (by rw [← hsame.dossier, hd])
    have hstored : ∀ job ∈ s.jobs, ∃ d, n'.fsm.dossier job.id = some d ∧ d.job = job := by
      intro job hjob
      obtain ⟨id, hid⟩ := hs.1.fromStore job hjob
      obtain rfl := hn'.order.filed id job hid
      exact ⟨_, dossier_of_lookup hid, rfl⟩
    have hjobs : SlotJobs n' now s.jobs := by
      refine ⟨hs.2, hstored, fun id d hd hdue => ?_⟩
      simp [hnone id d hd] at hdue
    have hwaiting' : AllWaiting n' := fun id d hd => hwaiting id d (by rw [← hsame.dossier, hd])
    refine wp_mono (hn'.wp_processSlot hcron hrange hmax hK hnow hwaiting' hjobs) ?_
    rintro _ n2 ⟨h2, hcalled, hdossier⟩
    refine ⟨h2, hsame.trans ⟨fun id => ?_, ?_⟩⟩
    · rw [hdossier, passed_of_not_due fun d hd => hnone id d hd]
    · have hdue : due now s.jobs = [] := by
        refine filter_eq_nil_iff.mpr fun job hjob => ?_
        obtain ⟨d, hd, rfl⟩ := hstored job hjob
        simp [hnone d.job.id d hd]
      rw [hcalled, toCall, hdue]
      simp

/-- What a pass starts: every job that is due and not called off, once. -/
def Calls (now : ℤ) (f : FSM) (l : List Job) : Prop :=
  (l.map Job.id).Nodup ∧
    ∀ job, job ∈ l ↔ f.plan job.id = some ⟨job, false⟩ ∧ shouldExecuteJob job now = true

lemma calls_nil {f : FSM}
    (h : ∀ id d, f.dossier id = some d → shouldExecuteJob d.job now = false) : Calls now f [] := by
  refine ⟨nodup_nil, fun job => iff_of_false not_mem_nil ?_⟩
  rintro ⟨hplan, hdue⟩
  obtain ⟨d, hd, hentry⟩ := map_eq_some_iff.mp hplan
  have hjob : d.job = job := congrArg Agenda.Entry.item hentry
  rw [← hjob, h job.id d hd] at hdue
  cases hdue

lemma SlotJobs.calls (h : SlotJobs n now jobs) : Calls now n.fsm (toCall now n.fsm jobs) := by
  refine ⟨h.nodup.sublist ((filter_sublist.trans filter_sublist).map _), fun job => ?_⟩
  rw [toCall, due, mem_filter, mem_filter, decide_eq_true_eq]
  constructor
  · rintro ⟨⟨-, hdue⟩, hplan⟩
    exact ⟨hplan, hdue⟩
  · rintro ⟨hplan, hdue⟩
    obtain ⟨d, hd, hentry⟩ := map_eq_some_iff.mp hplan
    have hjob : d.job = job := congrArg Agenda.Entry.item hentry
    rw [← hjob] at hdue
    have hmem := (h.complete job.id d hd hdue).1
    rw [hjob] at hdue hmem
    exact ⟨⟨hmem, hdue⟩, hplan⟩

/-- **A pass.**  Everything that is due is called, unless it was cancelled, and then removed or
replaced; nothing else changes. -/
theorem wp_pass (hcron : w.CronAdvances) (hrange : w.CronInRange)
    (hmax : 1 ≤ w.executionManager.maxAttempts) (h : InStep G b n) (hfollows : OnWatch.Follows K b n)
    (hK : 0 ≤ K) (hpos : 0 ≤ now) (hnow : now.tdiv G.gap = K) (hwaiting : AllWaiting n) :
    wp (handle queueThread) (DuringSlot G.gap K) (w.processLoop now 10)
      (fun _ n' => InStep G K n' ∧ (∃ l, n'.called = n.called ++ l ∧ Calls now n.fsm l) ∧
        ∀ id, n'.fsm.dossier id = w.passed now (n.fsm.dossier id)) n := by
  refine wp_seq (h.wp_getNextSlot hfollows) ?_
  rintro slot n1 ⟨h1, hsame, hnext⟩
  have hplan : n1.fsm.plan = n.fsm.plan := funext fun id => by rw [plan, plan, hsame.dossier]
  have hwaiting1 : AllWaiting n1 := fun id d hd => hwaiting id d (by rw [← hsame.dossier, hd])
  rcases h1.cases_nextIn hnow hpos hnext with ⟨s, rfl, hbegun, hjobs⟩ | ⟨hlater, hidle⟩
  · -- the slot of the present
    refine wp_ite.mpr ⟨fun hlt => absurd hbegun (not_le.mpr hlt), fun _ => wp_bind.mpr ?_⟩
    refine wp_mono (h1.wp_processSlot hcron hrange hmax hK hnow hwaiting1 hjobs) ?_
    rintro goOn n2 ⟨h2, hcalled2, hdossier2⟩
    have hdone : (∃ l, n2.called = n.called ++ l ∧ Calls now n.fsm l) ∧
        ∀ id, n2.fsm.dossier id = w.passed now (n.fsm.dossier id) := by
      refine ⟨⟨_, by rw [hcalled2, hsame.called], ?_⟩, fun id => by rw [hdossier2, hsame.dossier]⟩
      have hcalls := hjobs.calls
      rwa [Calls, hplan] at hcalls
    refine wp_ite.mpr ⟨fun _ => ?_, fun _ => ⟨h2, hdone⟩⟩
    refine wp_mono (h2.wp_processLoop_idle hcron hrange hmax hK hnow (fun id d hd => ?_)
      (fun id d hd => ?_) 9) ?_
    · rw [hdossier2] at hd
      obtain ⟨d0, hd0, -⟩ := bind_eq_some_iff.mp hd
      exact ⟨(hwaiting1 id d0 hd0).1, waiting_of_passed hd fun d' hd' => (hwaiting1 id d' hd').2⟩
    · rw [hdossier2] at hd
      exact hcron.not_due_of_passed hd
    · rintro _ n3 ⟨h3, hsame3⟩
      refine ⟨h3, ?_, fun id => by rw [hsame3.dossier, hdone.2]⟩
      rw [hsame3.called]
      exact hdone.1
  · -- no slot has begun
    have hend : (∃ l, n1.called = n.called ++ l ∧ Calls now n.fsm l) ∧
        ∀ id, n1.fsm.dossier id = w.passed now (n.fsm.dossier id) := by
      have hidle' : ∀ id d, n.fsm.dossier id = some d → shouldExecuteJob d.job now = false :=
        fun id d hd => hidle id d (by rw [hsame.dossier, hd])
      refine ⟨⟨[], by rw [hsame.called, append_nil], calls_nil hidle'⟩, fun id => ?_⟩
      rw [hsame.dossier, passed_of_not_due fun d hd => hidle' id d hd]
    cases slot with
    | none => exact ⟨h1, hend⟩
    | some s => exact wp_ite.mpr ⟨fun _ => ⟨h1, hend⟩, fun hlt => absurd (hlater s rfl) hlt⟩

end InStep

end ScheduledDb
