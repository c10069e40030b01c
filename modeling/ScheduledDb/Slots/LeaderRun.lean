import ScheduledDb.Slots.Reload

/-!
# Whole runs of a leader

A leader starts with an empty store.  Then jobs are created, deleted and cancelled through it, its
worker makes passes and looks for timeouts, and old attempts are pruned, in any order, one after the
other.  Commits succeed, cold spilling is off, and

* each of these happens within one slot, and clocks do not go back;
* a job has an id that is not in use, and is due in the slot in which it is created or later;
* passes come in every slot, and when the last one in a slot is over, nothing that was due in that
  slot is left (`NothingLeft`).  What is left when the wheel moves on is lost, so that this cannot be
  dropped.

**`leader_refines_agenda`**: every such run is a run of the agenda.  What is known of agendas then
holds of the webhooks:

* a one-shot job is called once, by the first pass that is not too early (**`oneShot_called_once`**);
* a recurring job is called as often as its cron expression says, seen from the passes
  (**`recurring_called_at_occurrences`**);
* a job that is cancelled misses one call (**`cancelled_skips_one`**), so that one that recurs goes
  on.

`LoadJobs` is never called by the application.  Called by a process that starts again, it makes a
queue with which the leader goes on where it was (**`reload_continues_agenda`**).
-/

namespace ScheduledDb

open Machine Program PersistentSlotQueue StatusTracker FSM

/-- What a leader is asked to do, and what it does on its own. -/
inductive Duty where
  | create (job : Job)
  | delete (id : String)
  | cancel (id reason : String)
  | pass
  | timeouts
  | prune (retention : Duration)

namespace Duty

/-- The code that a duty runs. -/
def program (w : Worker) : Duty → Program Act Unit
  | create job => Store.createJob jobEventHandler job >>= fun _ => pure ()
  | delete id => Store.deleteJob jobEventHandler id >>= fun _ => pure ()
  | cancel id reason => w.executionManager.statusTracker.markCancelled id reason >>= fun _ => pure ()
  | pass => w.processSlots
  | timeouts => w.checkTimeouts
  | prune retention => StatusTracker.pruneOldAttempts retention >>= fun _ => pure ()

/-- What it is on the agenda. -/
def op (time : ℤ) : Duty → Agenda.Op String Job
  | create job => .enter job.wire
  | delete id => .strike id
  | cancel id _ => .callOff id
  | pass => .pass time
  | timeouts => .rest
  | prune _ => .rest

end Duty

/-- A duty, when it begins and what it finds. -/
structure Shift where
  duty : Duty
  time : ℤ
  env : ℕ → Env

/-- What a shift is on the agenda. -/
def Shift.op (x : Shift) : Agenda.Op String Job := x.duty.op x.time

/-- The times of the passes. -/
def passTimes (shifts : List Shift) : List ℤ := (shifts.map Shift.op).filterMap Agenda.Rules.passTime

/-- A leader, with the time of its last pass and the time at which it was last seen. -/
structure Leader where
  node : Node
  lastPass : ℤ
  clock : ℤ

/-- Everything that is still in the store is due in the given slot or later. -/
def Node.NothingLeft (gap slot : ℤ) (n : Node) : Prop :=
  ∀ entry ∈ n.fsm.jobs.sortedEntries, ∀ time ∈ entry.2.dueTime, slot ≤ time.tdiv gap

instance (gap slot : ℤ) (n : Node) : Decidable (n.NothingLeft gap slot) :=
  inferInstanceAs (Decidable (∀ entry ∈ n.fsm.jobs.sortedEntries, ∀ time ∈ entry.2.dueTime, _))

/-- No slot is over if nothing is left. -/
lemma Node.NothingLeft.le_key {G : WheelGeometry} {b slot : ℤ} {n : Node}
    (h : n.NothingLeft G.gap slot) (hstep : InStep G b n) {k : ℤ} {data : SlotData}
    (hdata : n.fsm.slots.lookup k = some data) : slot ≤ k := by
  obtain ⟨id, hid⟩ := List.exists_mem_of_ne_nil _ (hstep.order.indexAgrees.nonempty k data hdata)
  obtain ⟨job, due, hjob, hdue, rfl⟩ := hstep.due_of_mem hdata hid
  exact h ⟨id, job⟩ ((Finmap.mem_sortedEntries _ id job).mpr hjob) due hdue

namespace Leader

/-- A leader that starts. -/
def new (slotGap : Duration) (configs : List WheelLevelConfig) (start : ℤ) : Leader where
  node := { fsm := newFSM, queue := newPersistentSlotQueueWithConfig slotGap configs }
  lastPass := start
  clock := start

/-- The process starts again with the store it had, and has `LoadJobs` make its queue. -/
def reload (slotGap : Duration) (configs : List WheelLevelConfig) (s : Leader) (time : ℤ)
    (env : ℕ → Env) : Leader where
  node := (Program.run (handle queueThread) loadJobs env
    { s.node with queue := newPersistentSlotQueueWithConfig slotGap configs }).1
  lastPass := time
  clock := time

/-- After something other than a pass. -/
def moved (s : Leader) (n : Node) (time : ℤ) : Leader where
  node := n
  lastPass := s.lastPass
  clock := time

/-- A leader after a shift. -/
def step (w : Worker) (s : Leader) (x : Shift) : Leader where
  node := (Program.run (handle queueThread) (x.duty.program w) x.env s.node).1
  lastPass := match x.duty with
    | .pass => x.time
    | _ => s.lastPass
  clock := x.time

/-- What is given: a chain of wheel levels, whole seconds, a cron library that goes forward and stays
within 64 bits, at least one attempt, and a clock that is not negative. -/
structure Given (slotGap : Duration) (configs : List WheelLevelConfig) (gap : ℤ) (w : Worker)
    (start : ℤ) : Prop where
  chain : ChainConfigs slotGap configs gap
  cronAdvances : w.CronAdvances
  cronInRange : w.CronInRange
  maxAttempts : 1 ≤ w.executionManager.maxAttempts
  start_nonneg : 0 ≤ start

/-- What may come next. -/
def Admissible (gap : ℤ) (s : Leader) (x : Shift) : Prop :=
  s.clock ≤ x.time ∧ (∀ i, DuringSlot gap (x.time.tdiv gap) (x.env i)) ∧
    match x.duty with
    | .create job =>
      job.id ≠ "" ∧ s.node.fsm.jobs.lookup job.id = none ∧
        ∀ time ∈ job.dueTime, x.time.tdiv gap ≤ time.tdiv gap ∧ InRange time
    | .pass =>
      (x.env 0).now = x.time ∧ (s.lastPass.tdiv gap = x.time.tdiv gap ∨
        s.lastPass.tdiv gap + 1 = x.time.tdiv gap ∧ s.node.NothingLeft gap (x.time.tdiv gap))
    | _ => True

/-- Index, slots, wheel and jobs fit together, all jobs wait, and the wheel is not behind the last
pass. -/
structure Sound (G : WheelGeometry) (s : Leader) : Prop where
  lastPass_nonneg : 0 ≤ s.lastPass
  lastPass_le : s.lastPass ≤ s.clock
  inStep : ∃ b, s.lastPass.tdiv G.gap ≤ b ∧ b ≤ s.clock.tdiv G.gap ∧ InStep G b s.node
  waiting : InStep.AllWaiting s.node

variable {gap : ℤ} {slotGap : Duration} {configs : List WheelLevelConfig}

/-- A new leader is sound: the wheel is at the slot of its start, and no job is stored. -/
lemma Sound.new {start : ℤ} (hchain : ChainConfigs slotGap configs gap) (hstart : 0 ≤ start) :
    (Leader.new slotGap configs start).Sound hchain.geometry where
  lastPass_nonneg := hstart
  lastPass_le := le_rfl
  inStep := by
    have hwhole := hchain.whole
    have hpos := hchain.gap_pos
    subst hwhole
    have hgap : (gap * 1000000000 : ℤ) ≠ 0 := by omega
    have hwheel : (Leader.new (gap * 1000000000) configs start).node.queue.wheel
        = newHierarchicalTimingWheel (gap * 1000000000) configs := by
      simp [Leader.new, newPersistentSlotQueueWithConfig, hgap]
    have horder : InOrder gap none (Leader.new (gap * 1000000000) configs start).node :=
      InOrder.new hpos configs
    have hblank := HierarchicalTimingWheel.blank_newWheel hchain
    rw [← hwheel] at hblank
    refine ⟨start.tdiv gap, le_rfl, le_rfl, horder, ?_, fun id => ?_⟩
    · refine ⟨rfl, horder.slotGap, Or.inl hblank, fun k hk => absurd hk (hblank.empty k), ?_, ?_⟩
      · simp [Leader.new, newFSM]
      · simp [Leader.new, newFSM]
    · simp [Leader.new, newFSM, newPersistentSlotQueueWithConfig]
  waiting := fun id d hd => by simp [Leader.new, newFSM, dossier] at hd

/-! ## One duty -/

namespace Sound

variable {G : WheelGeometry} {s : Leader} {w : Worker}

/-- The slot of the present comes after that of the wheel. -/
lemma slot_nonneg (h : s.Sound G) : 0 ≤ s.lastPass.tdiv G.gap :=
  Int.tdiv_nonneg h.lastPass_nonneg G.gap_pos.le

/-- The wheel is in step at a later time too, after something that does not concern it. -/
lemma inStep_by (h : s.Sound G) {time : ℤ} (hclock : s.clock ≤ time) {n : Node}
    (haside : Aside s.node n) :
    ∃ b, s.lastPass.tdiv G.gap ≤ b ∧ b ≤ time.tdiv G.gap ∧ InStep G b n := by
  obtain ⟨b, hle, hge, hstep⟩ := h.inStep
  exact ⟨b, hle, hge.trans (Int.tdiv_le_tdiv G.gap_pos hclock), hstep.of_aside haside⟩

section Moves

variable {time : ℤ} {n : Node} (h : s.Sound G) (hclock : s.clock ≤ time)
  (hstep : ∃ b, s.lastPass.tdiv G.gap ≤ b ∧ b ≤ time.tdiv G.gap ∧ InStep G b n)
  (hcalled : n.called = s.node.called)
include h hclock hstep

lemma moved (hwaiting : InStep.AllWaiting n) : (s.moved n time).Sound G where
  lastPass_nonneg := h.lastPass_nonneg
  lastPass_le := h.lastPass_le.trans hclock
  inStep := hstep
  waiting := hwaiting

include hcalled

/-- A job is entered. -/
lemma entered {job : Job} (hid : job.id ≠ "") (hdossier : ∀ id, n.fsm.dossier id
      = if id = job.id then some (newDossier job) else s.node.fsm.dossier id) :
    (s.moved n time).Sound G ∧ w.rules.Step (.enter job.wire) s.node.agenda n.agenda := by
  constructor
  · refine h.moved hclock hstep fun id d hd => ?_
    rw [hdossier] at hd
    split_ifs at hd with heq
    · rw [heq, ← Option.some.inj hd]
      exact ⟨hid, waiting_newDossier job⟩
    · exact h.waiting id d hd
  · refine .of_passTime rfl (fun id => ?_) hcalled
    show plan _ id = if id = job.id then _ else plan _ id
    rw [plan, plan, hdossier]
    split_ifs
    · rfl
    · rfl

/-- A job is struck out. -/
lemma struck {id : String}
    (hdossier : ∀ id', n.fsm.dossier id' = if id' = id then none else s.node.fsm.dossier id') :
    (s.moved n time).Sound G ∧ w.rules.Step (.strike id) s.node.agenda n.agenda := by
  constructor
  · refine h.moved hclock hstep fun id' d hd => ?_
    rw [hdossier] at hd
    split_ifs at hd
    exact h.waiting id' d hd
  · refine .of_passTime rfl (fun id' => ?_) hcalled
    show plan _ id' = if id' = id then none else plan _ id'
    rw [plan, plan, hdossier]
    split_ifs
    · rfl
    · rfl

/-- A job is called off. -/
lemma calledOff {id : String} (hdossier : ∀ id', n.fsm.dossier id'
      = if id' = id then (s.node.fsm.dossier id).map fun d => { d with status := .cancelled }
        else s.node.fsm.dossier id') :
    (s.moved n time).Sound G ∧ w.rules.Step (.callOff id) s.node.agenda n.agenda := by
  constructor
  · refine h.moved hclock hstep fun id' d hd => ?_
    rw [hdossier] at hd
    split_ifs at hd with heq
    · obtain ⟨d0, hd0, rfl⟩ := Option.map_eq_some_iff.mp hd
      exact ⟨heq ▸ (h.waiting id d0 hd0).1, Or.inr rfl⟩
    · exact h.waiting id' d hd
  · refine .of_passTime rfl (fun id' => ?_) hcalled
    show plan _ id' = if id' = id then (plan _ id').map _ else plan _ id'
    rw [plan, plan, hdossier]
    split_ifs with heq
    · rw [← heq, Option.map_map, Option.map_map]
      rfl
    · rfl

omit hcalled in
/-- Nothing happens to the jobs. -/
lemma rested (hsame : Undisclosed s.node n) :
    (s.moved n time).Sound G ∧ w.rules.Step .rest s.node.agenda n.agenda := by
  constructor
  · refine h.moved hclock hstep fun id d hd => ?_
    exact h.waiting id d (by rw [← hsame.dossier, hd])
  · refine .of_passTime rfl (fun id => ?_) hsame.called
    show plan _ id = plan _ id
    rw [plan, plan, hsame.dossier]

end Moves

lemma step_of_not_pass {x : Shift} (hduty : x.duty ≠ .pass) :
    s.step w x = s.moved (s.step w x).node x.time := by
  cases hx : x.duty with
  | pass => exact absurd hx hduty
  | _ => simp [step, Leader.moved, hx]

/-- What a run of a duty's program does. -/
lemma run_program (w : Worker) (duty : Duty) {time : ℤ} {env : ℕ → Env} {Q : Node → Prop}
    (henv : ∀ i, DuringSlot G.gap (time.tdiv G.gap) (env i))
    (hwp : wp (handle queueThread) (DuringSlot G.gap (time.tdiv G.gap)) (duty.program w)
      (fun _ => Q) s.node) : Q (s.step w ⟨duty, time, env⟩).node :=
  wp_run hwp henv

section Duties

variable {time : ℤ} {env : ℕ → Env} (h : s.Sound G) (hclock : s.clock ≤ time)
  (henv : ∀ i, DuringSlot G.gap (time.tdiv G.gap) (env i))

include h hclock henv

lemma step_create {job : Job} (hid : job.id ≠ "") (hfresh : s.node.fsm.jobs.lookup job.id = none)
    (hdue : ∀ t ∈ job.dueTime, time.tdiv G.gap ≤ t.tdiv G.gap ∧ InRange t) :
    (s.step w ⟨.create job, time, env⟩).Sound G ∧ w.rules.Step (.enter job.wire) s.node.agenda
      (s.step w ⟨.create job, time, env⟩).node.agenda := by
  obtain ⟨b, hle, hge, hstep⟩ := h.inStep_by hclock (.refl _)
  obtain ⟨⟨b', hb', hstep'⟩, hcalled, hdossier⟩ := run_program w (.create job) henv
    (wp_bind.mpr (hstep.wp_createJob (h.slot_nonneg.trans hle) hge hfresh hdue))
  exact h.entered hclock ⟨b', by rcases hb' with rfl | rfl <;> omega,
    by rcases hb' with rfl | rfl <;> omega, hstep'⟩ hcalled hid hdossier

lemma step_delete (id : String) :
    (s.step w ⟨.delete id, time, env⟩).Sound G ∧ w.rules.Step (.strike id) s.node.agenda
      (s.step w ⟨.delete id, time, env⟩).node.agenda := by
  obtain ⟨b, hle, hge, hstep⟩ := h.inStep_by hclock (.refl _)
  have hid : id ≠ "" ∨ s.node.fsm.dossier id = none := by
    cases hd : s.node.fsm.dossier id with
    | none => exact Or.inr rfl
    | some d => exact Or.inl (h.waiting id d hd).1
  obtain ⟨hstep', hcalled, hdossier⟩ := run_program w (.delete id) henv
    (wp_bind.mpr (hstep.wp_deleteJob (fun _ he => he.1) hid))
  exact h.struck hclock ⟨b, hle, hge, hstep'⟩ hcalled hdossier

lemma step_cancel (id reason : String) :
    (s.step w ⟨.cancel id reason, time, env⟩).Sound G ∧ w.rules.Step (.callOff id) s.node.agenda
      (s.step w ⟨.cancel id reason, time, env⟩).node.agenda := by
  have hcancels := run_program w (.cancel id reason) henv (wp_seq
    (wp_markCancelled (fun _ he => he.1) _ id reason fun d hd => (h.waiting id d hd).2)
    fun _ _ hmark => hmark.2)
  exact h.calledOff hclock (h.inStep_by hclock hcancels.aside) hcancels.called hcancels.dossier

/-- **A pass** of the leader is a pass of the agenda. -/
lemma step_pass (hcron : w.CronAdvances) (hrange : w.CronInRange)
    (hmax : 1 ≤ w.executionManager.maxAttempts) (hnow : (env 0).now = time)
    (hclose : s.lastPass.tdiv G.gap = time.tdiv G.gap ∨ s.lastPass.tdiv G.gap + 1 = time.tdiv G.gap ∧
      s.node.NothingLeft G.gap (time.tdiv G.gap)) :
    (s.step w ⟨.pass, time, env⟩).Sound G ∧ w.rules.Step (.pass time) s.node.agenda
      (s.step w ⟨.pass, time, env⟩).node.agenda := by
  obtain ⟨b, hle, hge, hstep⟩ := h.inStep_by hclock (.refl _)
  have hpos : 0 ≤ time := h.lastPass_nonneg.trans (h.lastPass_le.trans hclock)
  have hfollows : OnWatch.Follows (time.tdiv G.gap) b s.node := by
    rcases hclose with hsame | ⟨hnext, hleft⟩
    · exact Or.inl (by omega)
    · rcases (by omega : b = time.tdiv G.gap ∨ b + 1 = time.tdiv G.gap) with hb | hb
      · exact Or.inl hb
      · exact Or.inr ⟨hb, fun k data hdata => hleft.le_key hstep hdata⟩
  have hrun : (s.step w ⟨.pass, time, env⟩).node
      = (Program.run (handle queueThread) (w.processLoop time 10)
        (fun i => env (i + 1)) s.node).1 := by
    rw [← hnow]
    exact congrArg Prod.fst (w.run_processSlots queueThread env s.node)
  obtain ⟨hstep', ⟨l, hcalled, hnodup, hmem⟩, hdossier⟩ := wp_run (hstep.wp_pass hcron hrange hmax
    hfollows (Int.tdiv_nonneg hpos G.gap_pos.le) hpos rfl h.waiting) fun i => henv (i + 1)
  rw [← hrun] at hstep' hcalled hdossier
  constructor
  · refine ⟨hpos, le_rfl, ⟨_, le_rfl, le_rfl, hstep'⟩, fun id d hd => ?_⟩
    rw [hdossier] at hd
    obtain ⟨d0, hd0, -⟩ := Option.bind_eq_some_iff.mp hd
    exact ⟨(h.waiting id d0 hd0).1,
      Worker.waiting_of_passed hd fun d' hd' => (h.waiting id d' hd').2⟩
  · refine ⟨fun id => ?_, l, hcalled, hnodup, fun job => ?_⟩
    · show plan _ id = w.rules.entryAfter id (.pass time) (plan _ id)
      rw [plan, hdossier]
      exact Worker.map_entry_passed _ id
    · rw [hmem, Agenda.Rules.carriedOut_pass, Worker.due_iff]
      rfl

/-- A duty that writes execution states only, and none of a live job. -/
lemma step_rest {duty : Duty} (hduty : duty ≠ .pass) (hop : duty.op time = .rest)
    {P : Command → Prop} (hP : ∀ cmd, P cmd → cmd.LeavesJobs ∧ cmd.LeavesSlots)
    (hdetached : All (Detached P) (duty.program w))
    (hsame : wp (handle queueThread) Env.Stable (duty.program w)
      (fun _ => Undisclosed s.node) s.node) :
    (s.step w ⟨duty, time, env⟩).Sound G ∧
      w.rules.Step (duty.op time) s.node.agenda (s.step w ⟨duty, time, env⟩).node.agenda := by
  obtain ⟨hsame', haside⟩ := run_program w duty henv
    (wpWith_and (hsame.guarded fun _ _ _ he => he.1)
      (wpWith_aside (sidelined_of_detached hdetached hP) s.node))
  rw [hop, step_of_not_pass hduty]
  exact h.rested hclock (h.inStep_by hclock haside) hsame'

end Duties

/-- **One duty.** -/
lemma step (hcron : w.CronAdvances) (hrange : w.CronInRange)
    (hmax : 1 ≤ w.executionManager.maxAttempts) (h : s.Sound G) {x : Shift}
    (hx : s.Admissible G.gap x) :
    (s.step w x).Sound G ∧ w.rules.Step x.op s.node.agenda (s.step w x).node.agenda := by
  obtain ⟨duty, time, env⟩ := x
  obtain ⟨hclock, henv, hduty⟩ := hx
  cases duty with
  | create job => exact h.step_create hclock henv hduty.1 hduty.2.1 hduty.2.2
  | delete id => exact h.step_delete hclock henv id
  | cancel id reason => exact h.step_cancel hclock henv id reason
  | pass => exact h.step_pass hclock henv hcron hrange hmax hduty.1 hduty.2
  | timeouts =>
    refine h.step_rest hclock henv nofun rfl (fun _ => IsStatusUpdate.leaves) ?_ ?_
    · refine ⟨trivial, fun _ => all_ite.mpr ⟨fun _ => ?_, fun _ => trivial⟩⟩
      exact (all_checkTimeouts _ _ fun _ _ => ⟨_, rfl⟩).bind fun _ => trivial
    · refine fun e he => wp_ite.mpr ⟨fun _ => wp_bind.mpr ?_, fun hno => absurd he.1 hno⟩
      exact wp_checkTimeouts _ _ fun id d hd => (h.waiting id d hd).2
  | prune retention =>
    refine h.step_rest hclock henv nofun rfl (fun _ => IsPrune.leaves) ?_ ?_
    · exact (detached_pruneOldAttempts retention).bind fun _ => trivial
    · exact wp_bind.mpr (wp_pruneOldAttempts retention s.node)

/-- **Whole runs**: the leader stays sound, and its agenda takes the steps of its duties. -/
theorem runs (hcron : w.CronAdvances) (hrange : w.CronInRange)
    (hmax : 1 ≤ w.executionManager.maxAttempts) (h : s.Sound G) {shifts : List Shift}
    (hshifts : Run.Along (Leader.step w) (Admissible G.gap) s shifts) :
    (shifts.foldl (Leader.step w) s).Sound G ∧ w.rules.Runs (shifts.map Shift.op) s.node.agenda
      (shifts.foldl (Leader.step w) s).node.agenda := by
  induction shifts generalizing s with
  | nil => exact ⟨h, .nil _⟩
  | cons x shifts ih =>
    obtain ⟨hx, hrest⟩ := hshifts
    obtain ⟨hsound, hstep⟩ := h.step hcron hrange hmax hx
    obtain ⟨hsound', hruns⟩ := ih hsound hrest
    exact ⟨hsound', .cons hstep hruns⟩

end Sound

/-- **`LoadJobs` on a new queue.** -/
lemma Sound.reload (hchain : ChainConfigs slotGap configs gap) {s : Leader}
    (h : s.Sound hchain.geometry) {time : ℤ} {env : ℕ → Env} (hclock : s.clock ≤ time)
    (henv : ∀ i, DuringSlot gap (time.tdiv gap) (env i))
    (hleft : s.node.NothingLeft gap (time.tdiv gap)) :
    (s.reload slotGap configs time env).Sound hchain.geometry ∧
      (s.reload slotGap configs time env).node.agenda = s.node.agenda := by
  obtain ⟨b, hle, hge, hstep⟩ := h.inStep
  have hpos : 0 ≤ time := h.lastPass_nonneg.trans (h.lastPass_le.trans hclock)
  have hgap : slotGap ≠ 0 := by
    rw [hchain.whole]
    exact mul_ne_zero hchain.gap_pos.ne' (by decide)
  have hslotGap : seconds (newPersistentSlotQueueWithConfig slotGap configs).slotGap = gap := by
    rw [newPersistentSlotQueueWithConfig, if_neg hgap, hchain.seconds_slotGap]
  have hwheel : (newPersistentSlotQueueWithConfig slotGap configs).wheel
      = newHierarchicalTimingWheel slotGap configs := by
    simp [newPersistentSlotQueueWithConfig, hgap]
  have hfits := (HierarchicalTimingWheel.blank_newWheel hchain).fits
  rw [← hwheel] at hfits
  obtain ⟨hstep', hsame⟩ := wp_run (hstep.wp_loadJobs (K := time.tdiv gap)
    (n := { s.node with queue := newPersistentSlotQueueWithConfig slotGap configs }) rfl
      hslotGap hfits
    (Int.tdiv_nonneg hpos hchain.gap_pos.le) fun k data hdata => hleft.le_key hstep hdata) henv
  refine ⟨⟨hpos, le_rfl, ⟨_, le_rfl, le_rfl, hstep'⟩, fun id d hd => ?_⟩, ?_⟩
  · exact h.waiting id d ((hsame.dossier id).symm.trans hd)
  · have hplan : (s.reload slotGap configs time env).node.fsm.plan = s.node.fsm.plan :=
      funext fun id => congrArg (Option.map Dossier.entry) (hsame.dossier id)
    have hcalled : (s.reload slotGap configs time env).node.called = s.node.called := hsame.called
    rw [Node.agenda, Node.agenda, hplan, hcalled]

/-- The webhooks that were started under an id. -/
def calledUnder (s : Leader) (id : String) : List Job := s.node.called.filter fun job => job.id = id

end Leader

/-! ## Jobs on the agenda -/

namespace Worker

variable {w : Worker}

lemma keepsIds_rules (w : Worker) : w.rules.KeepsIds := by
  intro now job next hnext
  obtain ⟨job', hjob', rfl⟩ := Option.map_eq_some_iff.mp hnext
  obtain ⟨-, -, rfl⟩ := renewed_eq_some hjob'
  rfl

lemma CronAdvances.rules (h : w.CronAdvances) : w.rules.Advances := by
  intro now job next hnext time htime
  obtain ⟨job', hjob', rfl⟩ := Option.map_eq_some_iff.mp hnext
  have hnot := h.not_due hjob'
  by_contra hle
  rw [shouldExecuteJob_iff.mpr ⟨time, htime, not_lt.mp hle⟩] at hnot
  cases hnot

/-- A one-shot job occurs once. -/
lemma occurrences_of_unico {job : Job} (hjob : job.type = .unico) (times : List ℤ) :
    w.rules.occurrences times job.wire
      = if ∃ now ∈ times, ∃ due ∈ job.timestamp, due ≤ now then [job.wire] else [] := by
  have hdue : ∀ now, w.rules.Due now job.wire ↔ ∃ due ∈ job.timestamp, due ≤ now := by
    intro now
    have hwire : job.wire.dueTime = job.timestamp := by rw [Job.dueTime_wire, Job.dueTime, hjob]
    show (∃ due ∈ job.wire.dueTime, due ≤ now) ↔ _
    rw [hwire]
  have hwire : job.wire.type = .unico := hjob
  rw [Agenda.Rules.occurrences_once fun _ => by simp [rules, renewed, hwire]]
  simp only [hdue]

/-- What comes after a recurring job is that job with another time. -/
lemma next_of_recurrente {job next : Job} {now : ℤ} (hnext : w.rules.next now job = some next) :
    next.type = .recurrente ∧ ∃ time, next = { job.wire with createdAt := time } := by
  obtain ⟨job', hjob', rfl⟩ := Option.map_eq_some_iff.mp hnext
  obtain ⟨htype, -, rfl⟩ := renewed_eq_some hjob'
  exact ⟨htype, _, rfl⟩

end Worker

namespace Leader.Sound

variable {G : WheelGeometry} {s : Leader} {w : Worker}

lemma filed (h : s.Sound G) : w.rules.Filed s.node.agenda.plan := by
  intro id entry hentry
  obtain ⟨d, hd, rfl⟩ := Option.map_eq_some_iff.mp hentry
  obtain ⟨b, -, -, hstep⟩ := h.inStep
  exact hstep.order.filed id d.job (dossier_eq_some hd).1

/-- **The webhooks under an id**, from a state in which the leader has come to on. -/
lemma calledUnder_eq (hcron : w.CronAdvances) (hrange : w.CronInRange)
    (hmax : 1 ≤ w.executionManager.maxAttempts) (h : s.Sound G) {shifts : List Shift}
    (hshifts : Run.Along (Leader.step w) (Admissible G.gap) s shifts) (id : String) :
    (shifts.foldl (Leader.step w) s).calledUnder id
      = s.calledUnder id ++ w.rules.history id (shifts.map Shift.op) (s.node.fsm.plan id) :=
  (h.runs hcron hrange hmax hshifts).2.done_of_id w.keepsIds_rules h.filed id

end Leader.Sound

/-! ## A small leader -/

/-- Six slots of ten seconds, and four minutes. -/
def smallConfigs : List WheelLevelConfig := [⟨10000000000, 6⟩, ⟨60000000000, 4⟩]

lemma given_small : Leader.Given 10000000000 smallConfigs 10 everyMinute 0 :=
  ⟨⟨by decide, by decide, by decide, by decide, by decide⟩, Worker.everyMinute_cronAdvances,
    Worker.everyMinute_cronInRange, by decide, le_rfl⟩

def smallLeader : Leader := Leader.new 10000000000 smallConfigs 0

/-- Something that is done within a second. -/
def calmShift (duty : Duty) (time : ℤ) : Shift := ⟨duty, time, fun _ => Env.calm time⟩

variable {time : ℤ} {shifts after before : List Shift}

lemma duringSlot_calm (gap : ℤ) (htime : InRange time) :
    DuringSlot gap (time.tdiv gap) (Env.calm time) := ⟨⟨rfl, rfl⟩, htime, rfl⟩

/-- `Admissible`, for something that is done within a second. -/
def Leader.AdmissibleAt (gap : ℤ) (s : Leader) (time : ℤ) (duty : Duty) : Prop :=
  s.clock ≤ time ∧ InRange time ∧
    match duty with
    | .create job =>
      job.id ≠ "" ∧ s.node.fsm.jobs.lookup job.id = none ∧
        ∀ due ∈ job.dueTime, time.tdiv gap ≤ due.tdiv gap ∧ InRange due
    | .pass =>
      s.lastPass.tdiv gap = time.tdiv gap ∨
        s.lastPass.tdiv gap + 1 = time.tdiv gap ∧ s.node.NothingLeft gap (time.tdiv gap)
    | _ => True

instance (gap : ℤ) (s : Leader) (time : ℤ) : ∀ duty, Decidable (s.AdmissibleAt gap time duty)
  | .create job => inferInstanceAs (Decidable (_ ∧ _ ∧ _ ∧ _ ∧ ∀ due ∈ job.dueTime, _))
  | .delete _ => inferInstanceAs (Decidable (_ ∧ _ ∧ True))
  | .cancel _ _ => inferInstanceAs (Decidable (_ ∧ _ ∧ True))
  | .pass => inferInstanceAs (Decidable (_ ∧ _ ∧ (_ ∨ _ ∧ _)))
  | .timeouts => inferInstanceAs (Decidable (_ ∧ _ ∧ True))
  | .prune _ => inferInstanceAs (Decidable (_ ∧ _ ∧ True))

lemma along_of_calm {w : Worker} {gap : ℤ} {s : Leader}
    (hcalm : ∀ x ∈ shifts, x = calmShift x.duty x.time)
    (h : Run.Along (Leader.step w) (fun s x => s.AdmissibleAt gap x.time x.duty) s shifts) :
    Run.Along (Leader.step w) (Leader.Admissible gap) s shifts := by
  induction shifts generalizing s with
  | nil => trivial
  | cons x shifts ih =>
    obtain ⟨⟨hclock, hrange, hduty⟩, hrest⟩ := h
    refine ⟨?_, ih (fun y hy => hcalm y (List.mem_cons_of_mem x hy)) hrest⟩
    have hx := hcalm x List.mem_cons_self
    obtain ⟨duty, time, env⟩ := x
    obtain rfl : env = fun _ => Env.calm time := congrArg Shift.env hx
    refine ⟨hclock, fun _ => duringSlot_calm gap hrange, ?_⟩
    cases duty with
    | pass => exact ⟨rfl, hduty⟩
    | _ => exact hduty

def smallOneShot (timestamp : ℤ) : Job where
  id := "a"
  type := .unico
  timestamp := some timestamp
  webhookURL := "http://h"

def smallRecurring (createdAt : ℤ) : Job where
  id := "a"
  type := .recurrente
  cronExpr := "* * * * *"
  createdAt := createdAt
  webhookURL := "http://h"

/-- A pass every ten seconds. -/
def tenSecondly (first : ℤ) (passes : ℕ) : List Shift :=
  (List.range passes).map fun i => calmShift .pass (first + 10 * i)

lemma eq_calmShift_of_mem_tenSecondly {first : ℤ} {passes : ℕ} :
    ∀ x ∈ tenSecondly first passes, x = calmShift x.duty x.time :=
  List.forall_mem_map.mpr fun _ _ => rfl

/-! ## Main results -/

variable {slotGap : Duration} {configs : List WheelLevelConfig} {gap : ℤ} {w : Worker} {start : ℤ}

lemma Leader.Given.runs (h : Leader.Given slotGap configs gap w start)
    (hshifts : Run.Along (Leader.step w) (Leader.Admissible gap)
      (Leader.new slotGap configs start) shifts) :
    (shifts.foldl (Leader.step w) (Leader.new slotGap configs start)).Sound h.chain.geometry ∧
      w.rules.Runs (shifts.map Shift.op) ⟨fun _ => none, []⟩
        (shifts.foldl (Leader.step w) (Leader.new slotGap configs start)).node.agenda :=
  (Leader.Sound.new h.chain h.start_nonneg).runs h.cronAdvances h.cronInRange h.maxAttempts hshifts

/-- A run in two parts. -/
lemma Leader.Given.sound (h : Leader.Given slotGap configs gap w start)
    (hshifts : Run.Along (Leader.step w)
      (Leader.Admissible gap) (Leader.new slotGap configs start) (before ++ after)) :
    (before.foldl (Leader.step w) (Leader.new slotGap configs start)).Sound h.chain.geometry ∧
      Run.Along (Leader.step w) (Leader.Admissible h.chain.geometry.gap)
        (before.foldl (Leader.step w) (Leader.new slotGap configs start)) after := by
  obtain ⟨hbefore, hafter⟩ := Run.along_append.mp hshifts
  exact ⟨(h.runs hbefore).1, hafter⟩

/-- **A leader is a scheduler.** -/
theorem leader_refines_agenda (h : Leader.Given slotGap configs gap w start) {shifts : List Shift}
    (hshifts : Run.Along (Leader.step w)
      (Leader.Admissible gap) (Leader.new slotGap configs start) shifts) :
    w.rules.Runs (shifts.map Shift.op) ⟨fun _ => none, []⟩
      (shifts.foldl (Leader.step w) (Leader.new slotGap configs start)).node.agenda :=
  (h.runs hshifts).2

/-- A job that is created, cancelled, and created anew under the same id after its time. -/
theorem leader_refines_agenda_small :
    let shifts := [calmShift (.create (smallOneShot 5)) 2, calmShift (.cancel "a" "r") 3,
      calmShift .pass 9, calmShift (.create (smallRecurring 9)) 9, calmShift .pass 9]
    everyMinute.rules.Runs (shifts.map Shift.op) ⟨fun _ => none, []⟩
        (shifts.foldl (Leader.step everyMinute) smallLeader).node.agenda ∧
      (shifts.foldl (Leader.step everyMinute) smallLeader).node.called = [smallRecurring 9] := by
  intro shifts
  have hrun : Run.Along (Leader.step everyMinute) (Leader.Admissible 10) smallLeader shifts :=
    along_of_calm (by simp [shifts, calmShift]) (by decide +kernel)
  refine ⟨leader_refines_agenda given_small hrun, ?_⟩
  decide +kernel

/-- **Starting again.**  A process that starts with the store it had and calls `LoadJobs`, in a slot
before which nothing is left, goes on where it was. -/
theorem reload_continues_agenda (h : Leader.Given slotGap configs gap w start)
    {before after : List Shift} {time : ℤ} {env : ℕ → Env}
    (hbefore : Run.Along (Leader.step w) (Leader.Admissible gap)
      (Leader.new slotGap configs start) before)
    (hclock : (before.foldl (Leader.step w) (Leader.new slotGap configs start)).clock ≤ time)
    (henv : ∀ i, DuringSlot gap (time.tdiv gap) (env i))
    (hleft : (before.foldl (Leader.step w) (Leader.new slotGap configs start)).node.NothingLeft gap
      (time.tdiv gap))
    (hafter : Run.Along (Leader.step w) (Leader.Admissible gap)
      ((before.foldl (Leader.step w) (Leader.new slotGap configs start)).reload slotGap configs
        time env)
      after) :
    w.rules.Runs (before.map Shift.op ++ after.map Shift.op) ⟨fun _ => none, []⟩
      (after.foldl (Leader.step w) ((before.foldl (Leader.step w)
        (Leader.new slotGap configs start)).reload slotGap configs time env)).node.agenda := by
  obtain ⟨hsound, hruns⟩ := h.runs hbefore
  obtain ⟨hsound', hagenda⟩ := hsound.reload h.chain hclock henv hleft
  have hruns' := (hsound'.runs h.cronAdvances h.cronInRange h.maxAttempts hafter).2
  rw [hagenda] at hruns'
  exact hruns.append hruns'

/-- A job for second 15 is called though the process starts again at second 3. -/
theorem reload_continues_agenda_small :
    let s := ([calmShift (.create (smallOneShot 15)) 2].foldl (Leader.step everyMinute)
      smallLeader).reload 10000000000 smallConfigs 3 fun _ => Env.calm 3
    let after := [calmShift .pass 9, calmShift .pass 15]
    everyMinute.rules.Runs ([.enter (smallOneShot 15)] ++ [.pass 9, .pass 15]) ⟨fun _ => none, []⟩
        (after.foldl (Leader.step everyMinute) s).node.agenda ∧
      (after.foldl (Leader.step everyMinute) s).node.called = [smallOneShot 15] := by
  intro s after
  have hbefore : Run.Along (Leader.step everyMinute) (Leader.Admissible 10) smallLeader
      [calmShift (.create (smallOneShot 15)) 2] :=
    along_of_calm (by simp [calmShift]) (by decide +kernel)
  have hafter : Run.Along (Leader.step everyMinute) (Leader.Admissible 10) s after :=
    along_of_calm (by simp [after, calmShift]) (by decide +kernel)
  refine ⟨reload_continues_agenda given_small hbefore (by decide +kernel)
    (fun _ => duringSlot_calm 10 (by decide)) (by decide +kernel) hafter, ?_⟩
  decide +kernel

/-- What is called of a job after its creation. -/
lemma Leader.Given.calledUnder_created (h : Leader.Given slotGap configs gap w start) {job : Job}
    {env : ℕ → Env} (hshifts : Run.Along (Leader.step w) (Leader.Admissible gap)
      (Leader.new slotGap configs start) (before ++ ⟨.create job, time, env⟩ :: after))
    (hafter : ∀ x ∈ after, ¬ w.rules.Concerns job.id x.op) :
    ((before ++ ⟨.create job, time, env⟩ :: after).foldl (Leader.step w)
        (Leader.new slotGap configs start)).calledUnder job.id
      = (before.foldl (Leader.step w) (Leader.new slotGap configs start)).calledUnder job.id
        ++ w.rules.occurrences (passTimes after) job.wire := by
  obtain ⟨hsound, hrest⟩ := h.sound hshifts
  rw [List.foldl_append, hsound.calledUnder_eq h.cronAdvances h.cronInRange h.maxAttempts hrest]
  congr 1
  exact Agenda.Rules.history_enter (R := w.rules) job.wire (List.forall_mem_map.mpr hafter) _

/-- **Once.**  A one-shot job is called by the first pass that is not too early, and by no other. -/
theorem oneShot_called_once (h : Leader.Given slotGap configs gap w start)
    {before after : List Shift} {job : Job} {time : ℤ} {env : ℕ → Env}
    (hjob : job.type = .unico) (hshifts : Run.Along (Leader.step w) (Leader.Admissible gap)
      (Leader.new slotGap configs start) (before ++ ⟨.create job, time, env⟩ :: after))
    (hafter : ∀ x ∈ after, ¬ w.rules.Concerns job.id x.op) :
    ((before ++ ⟨.create job, time, env⟩ :: after).foldl (Leader.step w)
        (Leader.new slotGap configs start)).calledUnder job.id
      = (before.foldl (Leader.step w) (Leader.new slotGap configs start)).calledUnder job.id
        ++ if ∃ now ∈ passTimes after, ∃ due ∈ job.timestamp, due ≤ now then [job.wire] else [] := by
  rw [h.calledUnder_created hshifts hafter, Worker.occurrences_of_unico hjob]

/-- A job for second 5 that is created at second 2 is called by the pass at second 9. -/
theorem oneShot_called_at_nine :
    let after := [calmShift .pass 4, calmShift .pass 9, calmShift .pass 10]
    (([] ++ calmShift (.create (smallOneShot 5)) 2 :: after).foldl (Leader.step everyMinute)
      smallLeader).calledUnder "a" = [smallOneShot 5] := by
  intro after
  have hrun : Run.Along (Leader.step everyMinute) (Leader.Admissible 10) smallLeader
      ([] ++ calmShift (.create (smallOneShot 5)) 2 :: after) :=
    along_of_calm (by simp [after, calmShift]) (by decide +kernel)
  have honce := oneShot_called_once given_small rfl hrun (by decide)
  rw [if_pos (by decide)] at honce
  exact honce

/-- **As often as it should.**  A recurring job is called at its occurrences, seen from the passes;
each call is the job with a later time than the call before it. -/
theorem recurring_called_at_occurrences (h : Leader.Given slotGap configs gap w start)
    {before after : List Shift} {job : Job} {time : ℤ} {env : ℕ → Env} (hjob : job.type = .recurrente)
    (hshifts : Run.Along (Leader.step w) (Leader.Admissible gap)
      (Leader.new slotGap configs start) (before ++ ⟨.create job, time, env⟩ :: after))
    (hafter : ∀ x ∈ after, ¬ w.rules.Concerns job.id x.op) :
    let calls := w.rules.occurrences (passTimes after) job.wire
    ((before ++ ⟨.create job, time, env⟩ :: after).foldl (Leader.step w)
        (Leader.new slotGap configs start)).calledUnder job.id
      = (before.foldl (Leader.step w) (Leader.new slotGap configs start)).calledUnder job.id
        ++ calls ∧
    (∀ call ∈ calls, ∃ createdAt, call = { job.wire with createdAt := createdAt }) ∧
    calls.Pairwise fun earlier later => earlier.createdAt < later.createdAt := by
  intro calls
  have hcalls : ∀ call ∈ calls, call.type = .recurrente ∧
      ∃ createdAt, call = { job.wire with createdAt := createdAt } := by
    refine Agenda.Rules.forall_mem_occurrences (fun now item next hitem hnext => ?_)
      ⟨hjob, job.createdAt, rfl⟩ _
    obtain ⟨-, createdAt, rfl⟩ := hitem
    obtain ⟨htype, createdAt', rfl⟩ := Worker.next_of_recurrente hnext
    exact ⟨htype, createdAt',
      congrArg (fun call : Job => { call with createdAt := createdAt' }) job.wire_wire⟩
  refine ⟨h.calledUnder_created hshifts hafter,
    fun call hcall => (hcalls call hcall).2, ?_⟩
  refine (Agenda.Rules.pairwise_occurrences h.cronAdvances.rules _ _).imp_of_mem ?_
  intro earlier later hearlier hlater hlt
  refine hlt earlier.createdAt ?_ later.createdAt ?_
  · simp [Worker.rules, Job.dueTime, (hcalls earlier hearlier).1]
  · simp [Worker.rules, Job.dueTime, (hcalls later hlater).1]

/-- A job that is created for second 2, and recurs every minute. -/
theorem recurring_called_three_times :
    let after := tenSecondly 2 13
    (([] ++ calmShift (.create (smallRecurring 2)) 2 :: after).foldl (Leader.step everyMinute)
      smallLeader).calledUnder "a" = [smallRecurring 2, smallRecurring 60, smallRecurring 120] := by
  intro after
  have hrun : Run.Along (Leader.step everyMinute) (Leader.Admissible 10) smallLeader
      ([] ++ calmShift (.create (smallRecurring 2)) 2 :: after) :=
    along_of_calm (by simpa [calmShift] using eq_calmShift_of_mem_tenSecondly) (by decide +kernel)
  have hcalls := recurring_called_at_occurrences given_small rfl hrun (by decide)
  exact hcalls.1.trans (by decide +kernel)

/-- **Cancelling.**  A job that is cancelled is not called when it is due next.  If it recurs, it is
called again after that. -/
theorem cancelled_skips_one (h : Leader.Given slotGap configs gap w start)
    {before after : List Shift} {job : Job} {id reason : String} {time : ℤ} {env : ℕ → Env}
    (hshifts : Run.Along (Leader.step w) (Leader.Admissible gap)
      (Leader.new slotGap configs start) (before ++ ⟨.cancel id reason, time, env⟩ :: after))
    (hjob : (before.foldl (Leader.step w) (Leader.new slotGap configs start)).node.fsm.jobs.lookup id
      = some job)
    (hafter : ∀ x ∈ after, ¬ w.rules.Concerns id x.op) :
    ((before ++ ⟨.cancel id reason, time, env⟩ :: after).foldl (Leader.step w)
        (Leader.new slotGap configs start)).calledUnder id
      = (before.foldl (Leader.step w) (Leader.new slotGap configs start)).calledUnder id
        ++ (w.rules.occurrences (passTimes after) job).tail := by
  obtain ⟨hsound, hrest⟩ := h.sound hshifts
  rw [List.foldl_append, hsound.calledUnder_eq h.cronAdvances h.cronInRange h.maxAttempts hrest]
  congr 1
  have hplan := dossier_of_lookup hjob
  have hcalledOff : w.rules.entryAfter id (.callOff id)
      ((before.foldl (Leader.step w) (Leader.new slotGap configs start)).node.fsm.plan id)
        = some ⟨job, true⟩ := by
    rw [plan, hplan]
    exact if_pos rfl
  rw [List.map_cons, Agenda.Rules.history]
  show [] ++ w.rules.history id _ (w.rules.entryAfter id (.callOff id) _) = _
  rw [hcalledOff, Agenda.Rules.history_eq_occurrences id, List.nil_append]
  · simp [passTimes]
  · simpa using hafter

/-- A recurring job that is cancelled at second 3 is not called at second 4, but in the next
minute. -/
theorem cancelled_called_next_minute :
    let after := tenSecondly 4 7
    (([calmShift (.create (smallRecurring 2)) 2] ++ calmShift (.cancel "a" "r") 3 :: after).foldl
      (Leader.step everyMinute) smallLeader).calledUnder "a" = [smallRecurring 60] := by
  intro after
  have hrun : Run.Along (Leader.step everyMinute) (Leader.Admissible 10) smallLeader
      ([calmShift (.create (smallRecurring 2)) 2] ++ calmShift (.cancel "a" "r") 3 :: after) :=
    along_of_calm (by simpa [calmShift] using eq_calmShift_of_mem_tenSecondly) (by decide +kernel)
  have hstored : ([calmShift (.create (smallRecurring 2)) 2].foldl (Leader.step everyMinute)
      smallLeader).node.fsm.jobs.lookup "a" = some (smallRecurring 2) := by decide +kernel
  have hcalls := cancelled_skips_one given_small hrun hstored (by decide)
  exact hcalls.trans (by decide +kernel)

end ScheduledDb
