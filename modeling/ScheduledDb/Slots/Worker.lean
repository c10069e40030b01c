import ScheduledDb.Slots.ExecutionManager
import ScheduledDb.Store.ColdSlots

/-!
# The worker

`internal/slots/worker.go` as programs.  A pass of `processSlots` takes up to ten slots off the
queue, one at a time; of each it executes the jobs that are due, then deletes them from the store,
and creates recurring ones anew with their next time.

Cron expressions are read by a library: `cron` stands for its `Parse` (`none` is an error) and the
`Next` of what it parses, in Unix seconds.
-/

namespace ScheduledDb

open Machine Program PersistentSlotQueue Store

/-- The worker's thread. -/
def workerThread : ℕ := 0

structure Worker where
  executionManager : ExecutionManager
  inProgressTimeout : Duration
  cron : String → Option (ℤ → ℤ)

/-- What a pass has found out about the jobs of a slot. -/
structure Round where
  jobsToRemove : List String := []
  jobsToReschedule : List Job := []
  anyJobExecuted : Bool := false
  hasJobsNotReady : Bool := false

namespace Worker

def shouldExecuteJob (job : Job) (now : ℤ) : Bool :=
  match job.type, job.timestamp with
  | .unico, some timestamp => timestamp ≤ now
  | .recurrente, _ => job.createdAt ≤ now
  | _, _ => false

/-- The next time of a recurring job, or `0`. -/
def calculateNextExecution (w : Worker) (job : Job) (now : ℤ) : ℤ :=
  match w.cron job.cronExpr with
  | none => 0
  | some next =>
    match job.lastDate with
    | some lastDate => if next now > lastDate then 0 else next now
    | none => next now

/-- What becomes of a job that has been executed. -/
def settle (w : Worker) (now : ℤ) (round : Round) (job : Job) : Round :=
  match job.type with
  | .unico =>
    { round with anyJobExecuted := true, jobsToRemove := round.jobsToRemove ++ [job.id] }
  | .recurrente =>
    let nextTimestamp := w.calculateNextExecution job now
    { round with
      anyJobExecuted := true
      jobsToRemove := round.jobsToRemove ++ [job.id]
      jobsToReschedule :=
        if nextTimestamp > 0 then round.jobsToReschedule ++ [{ job with createdAt := nextTimestamp }]
        else round.jobsToReschedule }
  | .other _ => { round with anyJobExecuted := true }

/-- One job of a slot; the result of the execution goes to the metrics only. -/
def processJob (w : Worker) (now : ℤ) (round : Round) (job : Job) : Program Act Round :=
  if shouldExecuteJob job now = true then do
    let _ ← w.executionManager.execute job
    pure (w.settle now round job)
  else pure { round with hasJobsNotReady := true }

/-- Delete a job from the store, and from the queue in any case. -/
def removeExecuted (jobID : String) : Program Act Unit := do
  Store.ifLeader (Store.deleteJob jobEventHandler jobID)
  removeJob jobID

def reschedule (job : Job) : Program Act Unit :=
  Store.ifLeader (Store.createJob jobEventHandler job)

/-- The jobs of one slot.  The answer says whether to go on to the next slot. -/
def processSlot (w : Worker) (now : ℤ) (slot : Slot) : Program Act Bool := do
  let round ← foldEach slot.jobs (w.processJob now) {}
  forEach round.jobsToRemove removeExecuted
  forEach round.jobsToReschedule reschedule
  pure !(!round.anyJobExecuted && round.hasJobsNotReady)

/-- The loop of `processSlots`, with the number of slots it may still check. -/
def processLoop (w : Worker) (now : ℤ) : ℕ → Program Act Unit
  | 0 => pure ()
  | left + 1 => do
      match ← getNextSlot with
      | none => pure ()
      | some slot =>
        if now < slot.minTime then pure ()
        else do
          if ← w.processSlot now slot then w.processLoop now left else pure ()

def processSlots (w : Worker) : Program Act Unit := do
  let now ← perform .now
  w.processLoop now 10

def checkTimeouts (w : Worker) : Program Act Unit := do
  if ← perform .isLeader then do
    let _ ← w.executionManager.statusTracker.checkTimeouts w.inProgressTimeout
    pure ()
  else pure ()

/-- What a tick makes the worker do. -/
inductive Tick where
  | slots
  | timeouts
  deriving DecidableEq, Repr

def tick (w : Worker) : Tick → Program Act Unit
  | .slots => w.processSlots
  | .timeouts => w.checkTimeouts

/-- `run`, for the ticks that come. -/
def run (w : Worker) (ticks : List Tick) : Program Act Unit := forEach ticks w.tick

end Worker

/-! ## What the queue and the worker do at all -/

namespace PersistentSlotQueue

lemma all_dropIfDead (key : ℤ) : All (Quiet IsSlotCommand) (dropIfDead key) := by
  refine (all_getSlot trivial trivial).bind fun slot => ?_
  match slot with
  | none => exact all_onWheel fun w => (w.remove key, ())
  | some slotData =>
    refine all_ite.mpr ⟨fun _ => ?_, fun _ => trivial⟩
    exact (all_onWheel fun w => (w.remove key, ())).bind fun _ =>
      all_ifLeader (all_deleteSlot key)

lemma all_collectJobs {P : Command → Prop} (ids : List String) :
    All (Quiet P) (collectJobs ids) := by
  induction ids with
  | nil => trivial
  | cons jobID rest ih => exact ⟨trivial, fun _ => ih.bind fun _ => trivial⟩

lemma all_peekSlot {P : Command → Prop} : All (Quiet P) peekSlot := by
  simp only [peekSlot, onWheel, slotGapSeconds, perform_bind, all_step, all_ite]
  refine ⟨trivial, fun minTime => ⟨fun _ => trivial, fun _ => ⟨trivial, fun gap =>
    (all_getSlot trivial trivial).bind fun slot => ?_⟩⟩⟩
  match slot with
  | none => trivial
  | some slotData =>
    refine (all_collectJobs _).bind fun jobs => ?_
    exact all_ite.mpr ⟨fun _ => trivial, fun _ => trivial⟩

lemma all_getNextSlot : All (Quiet IsSlotCommand) getNextSlot :=
  all_ensureInit.bind fun _ => ⟨trivial, fun now =>
    (all_onWheel fun w => w.advance now).bind fun _ =>
      (all_forEach fun key _ => all_dropIfDead key).bind fun _ => all_peekSlot⟩

section Stored

variable {thread : ℕ} {guard : ∀ β : Type, Act β → Env → Node → Prop}

/-- The jobs all come from the store. -/
def FromStore (n : Node) (jobs : List Job) : Prop :=
  ∀ job ∈ jobs, ∃ id, n.fsm.jobs.lookup id = some job

/-- The slot is one of the store's, with those of the jobs it lists that there are. -/
def FromSlot (n : Node) (s : Slot) : Prop :=
  ∃ tier key slotData, n.fsm.slotAt tier key = some slotData ∧
    s.jobs = slotData.jobIDs.filterMap n.fsm.jobs.lookup

lemma FromSlot.fromStore {n : Node} {s : Slot} (h : FromSlot n s) : FromStore n s.jobs := by
  obtain ⟨tier, key, slotData, -, hjobs⟩ := h
  intro job hjob
  rw [hjobs] at hjob
  obtain ⟨id, -, hid⟩ := List.mem_filterMap.mp hjob
  exact ⟨id, hid⟩

/-- With everything filed under its name, the jobs are found by their own ids. -/
lemma FromSlot.lookup {n : Node} {s : Slot} (h : FromSlot n s) (hfiled : n.fsm.Filed) {job : Job}
    (hjob : job ∈ s.jobs) : n.fsm.jobs.lookup job.id = some job := by
  obtain ⟨id, hid⟩ := h.fromStore job hjob
  rw [hfiled.jobs id job hid]
  exact hid

/-- The ids of jobs found by their ids are among these. -/
lemma map_id_sublist {f : FSM} (hfiled : ∀ id job, f.jobs.lookup id = some job → job.id = id)
    (ids : List String) : ((ids.filterMap f.jobs.lookup).map Job.id).Sublist ids := by
  induction ids with
  | nil => exact List.Sublist.slnil
  | cons id ids ih =>
    rw [List.filterMap_cons]
    cases hjob : f.jobs.lookup id with
    | none => exact ih.cons id
    | some job => simpa [hfiled id job hjob] using ih

lemma wpWith_collectJobs (n : Node) (ids : List String) :
    wpWith (demonic (handle thread) guard) (collectJobs ids)
      (fun jobs n' => n' = n ∧ jobs = ids.filterMap n.fsm.jobs.lookup) n := by
  induction ids with
  | nil => exact ⟨rfl, rfl⟩
  | cons jobID rest ih =>
    simp only [collectJobs, perform_bind, wpWith_step]
    intro e _
    refine wpWith_seq demonic_mono ih ?_
    rintro jobs n' ⟨hsame, rfl⟩
    refine ⟨hsame, ?_⟩
    rw [List.filterMap_cons]
    cases hjob : n.fsm.jobs.lookup jobID <;> simp [handle, FSM.getJob, hjob]

lemma wpWith_peekSlot (n : Node) :
    wpWith (demonic (handle thread) guard) peekSlot
      (fun slot n' => n' = n ∧ ∀ s, slot = some s → FromSlot n s) n := by
  simp only [peekSlot, onWheel, slotGapSeconds, perform_bind, wpWith_step]
  intro e1 _
  refine wpWith_ite.mpr ⟨fun _ => ⟨rfl, by simp⟩, fun _ e2 _ => ?_⟩
  refine wpWith_bind.mpr (wpWith_getSlot (fun _ _ h e _ => h e trivial) fun e3 (_ : True) => ?_)
  split
  next => exact ⟨rfl, by simp⟩
  next slotData hslot =>
    refine wpWith_seq demonic_mono (wpWith_collectJobs _ _) ?_
    rintro jobs _ ⟨rfl, hjobs⟩
    refine wpWith_ite.mpr ⟨fun _ => ⟨rfl, by simp⟩, fun _ => ⟨rfl, ?_⟩⟩
    rintro s hs
    obtain rfl := Option.some.inj hs
    obtain ⟨tier, htier⟩ := FSM.exists_slotAt_of_getSlot hslot
    exact ⟨tier, _, slotData, htier, hjobs⟩

/-- **The jobs of the next slot are jobs of the store**, those that a slot of the store lists; and
finding it leaves the jobs alone. -/
lemma wpWith_getNextSlot (n : Node) :
    wpWith (demonic (handle thread) guard) getNextSlot
      (fun slot n' => n.fsm.SameJobs n'.fsm ∧ ∀ s, slot = some s → FromSlot n' s) n := by
  have hquiet : ∀ {α : Type} {p : Program Act α}, All (Quiet IsSlotCommand) p → ∀ n : Node,
      wpWith (demonic (handle thread) guard) p (fun _ n' => n.fsm.SameJobs n'.fsm) n :=
    fun hp n => wpWith_quiet (quiet_mono hp fun _ h => h.leavesJobs) n
  refine wpWith_seq demonic_mono (hquiet all_ensureInit n) fun _ n1 h1 => ?_
  rw [perform_bind, wpWith_step]
  intro e _
  refine wpWith_seq demonic_mono
    (hquiet (all_onWheel fun w => w.advance e.now) n1) fun readyKeys n2 h2 => ?_
  refine wpWith_seq demonic_mono
    (hquiet (all_forEach fun key _ => all_dropIfDead key) n2) fun _ n3 h3 => ?_
  refine wpWith_mono demonic_mono (wpWith_peekSlot n3) ?_
  rintro slot _ ⟨rfl, hslot⟩
  exact ⟨(h1.trans h2).trans h3, hslot⟩

end Stored

end PersistentSlotQueue

namespace Worker

/-! ## Rules for passes -/

/-- The deletion of a job has the commands of the queue beside its own. -/
lemma all_removeExecuted {P : Command → Prop} (hslot : ∀ cmd, IsSlotCommand cmd → P cmd)
    {id : String} (hdelete : P { type := .deleteJob, id := id }) :
    All (Quiet P) (removeExecuted id) :=
  (all_ifLeader (all_deleteJob
    (fun ev j => quiet_mono (all_jobEventHandler ev j) hslot) hdelete)).bind fun _ =>
      quiet_mono (all_removeJob id) hslot

lemma all_reschedule {P : Command → Prop} (hslot : ∀ cmd, IsSlotCommand cmd → P cmd) {job : Job}
    (hcreate : P { type := .createJob, job := some job }) : All (Quiet P) (reschedule job) :=
  all_ifLeader (all_createJob
    (fun ev j => quiet_mono (all_jobEventHandler ev j) hslot) hcreate)

/-- **The rule for passes**: an invariant of the slots that are processed, given what is known of
them when they are found. -/
theorem wpWith_processLoop {σ : Type*} {T : Transformer Act σ} (hT : T.Mono) {w : Worker} {now : ℤ}
    {I : σ → Prop} {J : Slot → σ → Prop}
    (hnext : ∀ s, I s → wpWith T getNextSlot (fun slot s' => I s' ∧ ∀ x, slot = some x → J x s') s)
    (hslot : ∀ x s, I s → J x s → wpWith T (w.processSlot now x) (fun _ => I) s) (left : ℕ) {s : σ}
    (hs : I s) : wpWith T (w.processLoop now left) (fun _ => I) s := by
  induction left generalizing s with
  | zero => exact hs
  | succ left ih =>
    refine wpWith_seq hT (hnext s hs) ?_
    rintro slot s1 ⟨h1, hfound⟩
    cases slot with
    | none => exact h1
    | some slot =>
      refine wpWith_ite.mpr ⟨fun _ => h1, fun _ => wpWith_bind.mpr ?_⟩
      refine wpWith_mono hT (hslot slot s1 h1 (hfound slot rfl)) ?_
      exact fun goOn s2 h2 => wpWith_ite.mpr ⟨fun _ => ih h2, fun _ => h2⟩

/-- A pass looks at the clock once. -/
lemma run_processSlots (w : Worker) (thread : ℕ) (env : ℕ → Env) (n : Node) :
    Program.run (handle thread) w.processSlots env n
      = Program.run (handle thread) (w.processLoop (env 0).now 10) (fun i => env (i + 1)) n := rfl

end Worker

/-! ## A small setting for runs -/

/-- `time.Time{}.Unix()`, which stands for no time. -/
def zeroTime : ℤ := -62135596800

/-- The first full minute after a second, unless it is no 64-bit number. -/
def nextMinute (now : ℤ) : ℤ :=
  let next := (now / 60 + 1) * 60
  if InRange next then next else zeroTime

lemma lt_nextMinute (now : ℤ) : now < nextMinute now ∨ nextMinute now = zeroTime := by
  simp only [nextMinute]
  split_ifs
  · left
    omega
  · exact Or.inr rfl

lemma inRange_nextMinute (now : ℤ) : InRange (nextMinute now) := by
  simp only [nextMinute]
  split_ifs with hrange
  · exact hrange
  · decide

/-- The cron library, as far as the expression `* * * * *` goes. -/
def minutely (expr : String) : Option (ℤ → ℤ) :=
  if expr = "* * * * *" then some nextMinute else none

lemma eq_nextMinute {expr : String} {next : ℤ → ℤ} (h : minutely expr = some next) :
    next = nextMinute := by
  unfold minutely at h
  split_ifs at h
  exact (Option.some.inj h).symm

/-- A worker with three attempts for each job. -/
def everyMinute : Worker where
  executionManager := ⟨"n", 3⟩
  inProgressTimeout := 0
  cron := minutely

/-- A node that has just started, with a small wheel. -/
def freshNode : Node where
  fsm := newFSM
  queue := newPersistentSlotQueueWithConfig defaultSlotGap [⟨10000000000, 6⟩, ⟨60000000000, 4⟩]

/-- A leader that has accepted a job, at second 0. -/
def acceptedJob (job : Job) : Node :=
  (Program.run (handle workerThread) (Store.createJob jobEventHandler job) (fun _ => Env.calm 0)
    freshNode).1

end ScheduledDb
