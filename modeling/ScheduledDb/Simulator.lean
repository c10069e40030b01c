import Mathlib.Data.Rat.Defs
import ScheduledDb.Slots.TimingWheel.Conservation
import ScheduledDb.Slots.TimingWheel.ExactFiring
import ScheduledDb.Slots.Worker
import ScheduledDb.Store.JobRequest

/-!
# The simulator

`internal/simulator`: a state machine, a clock that is moved by hand, a timing wheel and a worker
that executes jobs by drawing lots, in one process and without Raft.  The simulator and its worker
point to the same objects, which are the worker's fields here.  Floating-point numbers are rational
numbers; the speed of the clock is one, so that no product is rounded.

A job that is created goes into the state machine and into a slot there, and a tick finds slots
through the wheel.  But `Simulator.addToWheel` does not add anything to the wheel, and the worker
adds to it only the jobs that it has found through it: `accepted_never_executed`.
-/

namespace ScheduledDb

open Machine PersistentSlotQueue HierarchicalTimingWheel

/-! ## Clock and executor -/

structure SimulatedClock where
  now : ℤ
  speed : ℚ
  deriving DecidableEq

/-- `NewSimulatedClock`, with the wall clock at hand. -/
def newSimulatedClock (startAt wallClock : ℤ) : SimulatedClock where
  now := if startAt = 0 then wallClock else startAt
  speed := 1

/-- `int64(x)` of a float: towards zero.  Where there is no such `int64`, Go leaves the value to the
platform; amd64 gives the least one. -/
def int64OfFloat (x : ℚ) : ℤ :=
  let n := x.num.tdiv x.den
  if InRange n then n else -9223372036854775808

/-- `Tick`: the clock goes on by `int64(elapsed * speed)`. -/
def SimulatedClock.tick (c : SimulatedClock) (elapsed : ℚ) : SimulatedClock :=
  { c with now := wrap64 (c.now + int64OfFloat (elapsed * c.speed)) }

structure ExecutionResult where
  jobID : String
  success : Bool
  responseTime : ℤ
  timestamp : ℤ
  deriving DecidableEq

/-- What `rand.Int63n` and `rand.Float64` give for one execution. -/
structure Draw where
  jitter : ℤ
  chance : ℚ

structure SimulatedExecutor where
  successRate : ℚ
  latencyMs : ℤ
  execLog : List ExecutionResult
  deriving DecidableEq

def newSimulatedExecutor (successRate : ℚ) (latencyMs : ℤ) : SimulatedExecutor where
  successRate := if successRate < 0 then 0 else if successRate > 1 then 1 else successRate
  latencyMs := if latencyMs < 0 then 0 else latencyMs
  execLog := []

/-- The last 200 entries. -/
def lastEntries {α : Type} (log : List α) : List α := log.drop (log.length - 200)

def SimulatedExecutor.execute (e : SimulatedExecutor) (draw : Draw) (job : Job) (now : ℤ) :
    SimulatedExecutor × ExecutionResult :=
  let result : ExecutionResult :=
    { jobID := job.id
      success := draw.chance < e.successRate
      responseTime := wrap64 (e.latencyMs + if e.latencyMs > 0 then draw.jitter else 0)
      timestamp := now }
  ({ e with execLog := lastEntries (e.execLog ++ [result]) }, result)

/-! ## The worker -/

structure SimulatedWorker where
  clock : SimulatedClock
  executor : SimulatedExecutor
  fsm : FSM
  wheel : HierarchicalTimingWheel
  slotGap : Duration

structure TickResult where
  executedJobs : List ExecutionResult
  rescheduled : List String
  readySlots : ℤ
  deriving DecidableEq

namespace SimulatedWorker

/-- `slotGap` in seconds; a gap below one second falls back to the default. -/
def slotGapSec (w : SimulatedWorker) : ℤ :=
  if seconds w.slotGap = 0 then seconds defaultSlotGap else seconds w.slotGap

/-- `fsm.ApplyCommand`, the answer left aside. -/
def applyCommand (w : SimulatedWorker) (cmd : Command) : SimulatedWorker :=
  { w with fsm := (w.fsm.applyCommandInternal {} cmd).1 }

def addToWheel (w : SimulatedWorker) (job : Job) : SimulatedWorker :=
  match job.dueTime with
  | none => w
  | some ts => { w with wheel := w.wheel.add (ts.tdiv w.slotGapSec) }

def updateSlotInFSM (w : SimulatedWorker) (job : Job) : SimulatedWorker :=
  match job.dueTime with
  | none => w
  | some ts =>
    let key := ts.tdiv w.slotGapSec
    let slotData :=
      match w.fsm.getSlot key false with
      | none => newSlotData key w.slotGapSec job.id
      | some slotData => { slotData with jobIDs := slotData.jobIDs ++ [job.id] }
    w.applyCommand { type := .createSlot, slot := some slotData }

def shouldExecute (job : Job) (now : ℤ) : Bool := Worker.shouldExecuteJob job now

/-- The cron library gives the next time after a given one, if the expression can be parsed. -/
def calculateNextExecution (cron : String → Option (ℤ → ℤ)) (job : Job) (now : ℤ) : ℤ :=
  match cron job.cronExpr with
  | none => 0
  | some next =>
    match job.lastDate with
    | some lastDate => if next now > lastDate then 0 else next now
    | none => next now

/-- A recurring job is deleted and created anew for its next time. -/
def reschedule (w : SimulatedWorker) (jobID : String) (job : Job) : SimulatedWorker :=
  (((w.applyCommand { type := .deleteJob, id := jobID }).applyCommand
    { type := .createJob, job := some job }).addToWheel job).updateSlotInFSM job

section Tick

variable (cron : String → Option (ℤ → ℤ)) (draws : ℕ → Draw) (now : ℤ)

/-- What becomes of a job that has been executed. -/
def settle (w : SimulatedWorker) (result : TickResult) (jobID : String) (job : Job) :
    SimulatedWorker × TickResult :=
  match job.type with
  | .unico => (w.applyCommand { type := .deleteJob, id := jobID }, result)
  | .recurrente =>
    let nextTs := calculateNextExecution cron job now
    if nextTs > 0 then
      (w.reschedule jobID { job with createdAt := nextTs },
        { result with rescheduled := result.rescheduled ++ [jobID] })
    else (w.applyCommand { type := .deleteJob, id := jobID }, result)
  | .other _ => (w, result)

/-- One job of a slot. -/
def processJob (s : SimulatedWorker × TickResult) (jobID : String) :
    SimulatedWorker × TickResult :=
  match s.1.fsm.getJob jobID with
  | none => s
  | some job =>
    if shouldExecute job now = true then
      let execution := s.1.executor.execute (draws s.2.executedJobs.length) job now
      settle cron now { s.1 with executor := execution.1 }
        { s.2 with executedJobs := s.2.executedJobs ++ [execution.2] } jobID job
    else s

/-- `wheel.Remove(slotKey)` -/
def removeKey (s : SimulatedWorker × TickResult) (slotKey : ℤ) : SimulatedWorker × TickResult :=
  ({ s.1 with wheel := s.1.wheel.remove slotKey }, s.2)

/-- One slot key that has come up. -/
def processSlot (s : SimulatedWorker × TickResult) (slotKey : ℤ) : SimulatedWorker × TickResult :=
  match s.1.fsm.getSlot slotKey false with
  | none => removeKey s slotKey
  | some slotData =>
    if slotData.jobIDs = [] then removeKey s slotKey
    else removeKey (slotData.jobIDs.foldl (processJob cron draws now) s) slotKey

end Tick

def processTick (cron : String → Option (ℤ → ℤ)) (draws : ℕ → Draw) (w : SimulatedWorker) :
    SimulatedWorker × TickResult :=
  let ready := w.wheel.advance w.clock.now
  ready.2.foldl (processSlot cron draws w.clock.now)
    ({ w with wheel := ready.1 },
      { executedJobs := [], rescheduled := [], readySlots := ready.2.length })

end SimulatedWorker

/-! ## The simulator -/

structure SimulatorConfig where
  slotGap : Duration := 0
  successRate : ℚ := 0
  latencyMs : ℤ := 0
  wheelConfigs : List WheelLevelConfig := []

structure Simulator where
  worker : SimulatedWorker
  tickLog : List TickResult

/-- `NewSimulator`, with two readings of the wall clock. -/
def newSimulator (cfg : SimulatorConfig) (now later : ℤ) : Simulator :=
  let slotGap := if cfg.slotGap = 0 then defaultSlotGap else cfg.slotGap
  let configs := if cfg.wheelConfigs = [] then defaultWheelConfigs slotGap else cfg.wheelConfigs
  { worker :=
      { clock := newSimulatedClock now later
        executor :=
          newSimulatedExecutor (if cfg.successRate = 0 then 19 / 20 else cfg.successRate)
            cfg.latencyMs
        fsm := newFSM
        wheel := (newHierarchicalTimingWheel slotGap configs).init now
        slotGap := slotGap }
    tickLog := [] }

namespace Simulator

/-- `addToWheel` of the simulator: the job is entered into its slot in the state machine. -/
def addToWheel (s : Simulator) (job : Job) : Simulator :=
  { s with worker := s.worker.updateSlotInFSM job }

/-- `CreateJob`.  `ToJob` reads the wall clock, and draws an id for a request without one. -/
def createJob (parsers : Parsers) (s : Simulator) (req : CreateJobRequest) (uuid : String)
    (wallClock : ℤ) : Simulator × Except String Job :=
  match req.build parsers (if req.id = "" then uuid else req.id) wallClock with
  | .error err => (s, .error ("invalid job request: " ++ err))
  | .ok job =>
    let cmd : Command := { type := .createJob, job := some job }
    let created := { s with worker := s.worker.applyCommand cmd }
    match (s.worker.fsm.applyCommandInternal {} cmd).2 with
    | .error e => (created, .error ("failed to create job: " ++ e.message))
    | _ => (created.addToWheel job, .ok job)

/-- `DeleteJob`; `none` is `nil`. -/
def deleteJob (s : Simulator) (id : String) : Simulator × Option String :=
  let cmd : Command := { type := .deleteJob, id := id }
  ({ s with worker := s.worker.applyCommand cmd },
    match (s.worker.fsm.applyCommandInternal {} cmd).2 with
    | .error e => some ("failed to delete job: " ++ e.message)
    | _ => none)

def tick (cron : String → Option (ℤ → ℤ)) (draws : ℕ → Draw) (s : Simulator) :
    Simulator × TickResult :=
  let processed := s.worker.processTick cron draws
  ({ worker := processed.1, tickLog := lastEntries (s.tickLog ++ [processed.2]) }, processed.2)

def advanceTime (s : Simulator) (seconds : ℚ) : Simulator :=
  { s with worker := { s.worker with clock := s.worker.clock.tick seconds } }

def getNow (s : Simulator) : ℤ := s.worker.clock.now

/-! ## Runs -/

/-- The libraries: reading of times, and of cron expressions. -/
structure Libraries where
  parsers : Parsers
  cron : String → Option (ℤ → ℤ)

/-- A call, with what it takes from outside. -/
inductive Call where
  | createJob (req : CreateJobRequest) (uuid : String) (wallClock : ℤ)
  | deleteJob (id : String)
  | advanceTime (seconds : ℚ)
  | tick (draws : ℕ → Draw)

variable (lib : Libraries)

/-- The simulator after a call. -/
def act (s : Simulator) : Call → Simulator
  | .createJob req uuid wallClock => (s.createJob lib.parsers req uuid wallClock).1
  | .deleteJob id => (s.deleteJob id).1
  | .advanceTime seconds => s.advanceTime seconds
  | .tick draws => (s.tick lib.cron draws).1

/-- What a call has executed. -/
def executed (s : Simulator) : Call → List ExecutionResult
  | .tick draws => (s.tick lib.cron draws).2.executedJobs
  | _ => []

def run (s : Simulator) (calls : List Call) : Simulator := calls.foldl (act lib) s

/-- All executions of a run. -/
def executions : Simulator → List Call → List ExecutionResult
  | _, [] => []
  | s, call :: rest => executed lib s call ++ executions (act lib s call) rest

/-- The job should have been executed: it was accepted for a time that had not passed and has not
been deleted, the clock was never put back, and the last call of the run is a tick at which the
job's slot is over. -/
def Due (s : Simulator) (calls : List Call) (id : String) : Prop :=
  ∃ before req uuid wallClock after draws job t,
    calls = before ++ .createJob req uuid wallClock :: after ++ [.tick draws] ∧
    ((s.run lib before).createJob lib.parsers req uuid wallClock).2 = .ok job ∧
    job.id = id ∧ job.dueTime = some t ∧ (s.run lib before).getNow ≤ t ∧
    (∀ seconds, .advanceTime seconds ∈ calls → 0 ≤ seconds) ∧ .deleteJob id ∉ after ∧
    (t.tdiv s.worker.slotGapSec + 1) * s.worker.slotGapSec
      ≤ (s.run lib (before ++ .createJob req uuid wallClock :: after)).getNow

/-! ## The wheel stays empty -/

/-- The wheel holds nothing. -/
structure WheelEmpty (s : Simulator) : Prop where
  wellFormed : s.worker.wheel.WellFormed
  empty : ∀ k, ¬ s.worker.wheel.Holds k

lemma wheelEmpty_new {cfg : SimulatorConfig} (hbuckets : ∀ c ∈ cfg.wheelConfigs, 1 ≤ c.buckets)
    (now later : ℤ) : (newSimulator cfg now later).WheelEmpty := by
  simp only [newSimulator]
  generalize (if cfg.slotGap = 0 then defaultSlotGap else cfg.slotGap) = slotGap
  have hconfigs : ∀ c ∈ (if cfg.wheelConfigs = [] then defaultWheelConfigs slotGap
      else cfg.wheelConfigs), 1 ≤ c.buckets := by
    split_ifs
    · simp [defaultWheelConfigs]
    · exact hbuckets
  have hne : (if cfg.wheelConfigs = [] then defaultWheelConfigs slotGap
      else cfg.wheelConfigs) ≠ [] := by
    split_ifs with hnil
    · simp [defaultWheelConfigs]
    · exact hnil
  refine ⟨(wellFormed_new hconfigs).init now, fun k hk => ?_⟩
  rw [holds_init] at hk
  exact not_holds_newWheel hne k hk

lemma wheel_updateSlotInFSM (w : SimulatedWorker) (job : Job) :
    (w.updateSlotInFSM job).wheel = w.wheel := by
  unfold SimulatedWorker.updateSlotInFSM
  cases job.dueTime <;> rfl

/-- **Creating a job leaves the wheel as it is.** -/
lemma wheel_createJob (parsers : Parsers) (s : Simulator) (req : CreateJobRequest) (uuid : String)
    (wallClock : ℤ) : (s.createJob parsers req uuid wallClock).1.worker.wheel = s.worker.wheel := by
  unfold createJob
  cases req.build parsers (if req.id = "" then uuid else req.id) wallClock with
  | error err => rfl
  | ok job => exact wheel_updateSlotInFSM _ job

/-- A tick with an empty wheel finds nothing to do. -/
lemma tick_of_wheelEmpty {s : Simulator} (h : s.WheelEmpty) (cron : String → Option (ℤ → ℤ))
    (draws : ℕ → Draw) :
    (s.tick cron draws).1.WheelEmpty ∧
      (s.tick cron draws).2 = { executedJobs := [], rescheduled := [], readySlots := 0 } := by
  have hholds := holds_advance h.wellFormed s.worker.clock.now
  have hready : (s.worker.wheel.advance s.worker.clock.now).2 = [] := by
    refine List.eq_nil_iff_forall_not_mem.mpr fun k hk => h.empty k ?_
    exact (hholds k).mpr (Or.inr hk)
  have htick : s.worker.processTick cron draws
      = ({ s.worker with wheel := (s.worker.wheel.advance s.worker.clock.now).1 },
        { executedJobs := [], rescheduled := [], readySlots := 0 }) := by
    simp [SimulatedWorker.processTick, hready]
  rw [tick, htick]
  refine ⟨⟨h.wellFormed.advance _, fun k hk => h.empty k ?_⟩, rfl⟩
  exact (hholds k).mpr (Or.inl hk)

/-- **Every call leaves an empty wheel empty**, and executes nothing. -/
lemma wheelEmpty_act {s : Simulator} (h : s.WheelEmpty) (call : Call) :
    (s.act lib call).WheelEmpty ∧ s.executed lib call = [] := by
  cases call with
  | createJob req uuid wallClock =>
    refine ⟨?_, rfl⟩
    have hwheel := wheel_createJob lib.parsers s req uuid wallClock
    exact ⟨hwheel ▸ h.wellFormed, hwheel ▸ h.empty⟩
  | deleteJob id | advanceTime seconds => exact ⟨⟨h.wellFormed, h.empty⟩, rfl⟩
  | tick draws =>
    obtain ⟨hempty, hresult⟩ := tick_of_wheelEmpty h lib.cron draws
    refine ⟨hempty, ?_⟩
    rw [executed, hresult]

lemma executions_of_wheelEmpty (calls : List Call) {s : Simulator} (h : s.WheelEmpty) :
    s.executions lib calls = [] := by
  induction calls generalizing s with
  | nil => rfl
  | cons call rest ih =>
    obtain ⟨hnext, hnone⟩ := wheelEmpty_act lib h call
    rw [executions, hnone, ih hnext, List.append_nil]

/-- **No accepted job is ever executed**: no run executes anything, so none executes a job that it
should have executed by then. -/
theorem accepted_never_executed (cfg : SimulatorConfig)
    (hbuckets : ∀ c ∈ cfg.wheelConfigs, 1 ≤ c.buckets) (now later : ℤ) (calls : List Call) :
    let s := newSimulator cfg now later
    s.executions lib calls = [] ∧
      ∀ id, s.Due lib calls id → ¬ ∃ result ∈ s.executions lib calls, result.jobID = id := by
  have hnone := executions_of_wheelEmpty lib calls (wheelEmpty_new hbuckets now later)
  refine ⟨hnone, fun id _ => ?_⟩
  simp [hnone]

/-- A small wheel, and libraries that know times as numbers only. -/
def smallConfig : SimulatorConfig where
  wheelConfigs := [⟨10000000000, 6⟩, ⟨60000000000, 4⟩]

def plainLibraries : Libraries where
  parsers := ⟨fun _ _ => none, fun _ => none⟩
  cron := fun _ => none

/-- At second 100 a job for second 105 is created; 20 seconds later comes a tick. -/
def lateTick : List Call :=
  [.createJob { id := "a", type := .unico, timestamp := "105" } "" 100, .advanceTime 20,
    .tick fun _ => ⟨0, 0⟩]

lemma due_lateTick : (newSimulator smallConfig 100 100).Due plainLibraries lateTick "a" := by
  refine ⟨[], { id := "a", type := .unico, timestamp := "105" }, "", 100, [.advanceTime 20],
    fun _ => ⟨0, 0⟩, { id := "a", type := .unico, timestamp := some 105, createdAt := 100 }, 105,
    rfl, ?_, rfl, rfl, ?_, ?_, ?_, ?_⟩
  · decide +kernel
  · decide +kernel
  · simp [lateTick]
  · simp
  · decide +kernel

theorem never_executed_lateTick :
    ¬ ∃ result ∈ (newSimulator smallConfig 100 100).executions plainLibraries lateTick,
      result.jobID = "a" :=
  (accepted_never_executed plainLibraries smallConfig (by decide) 100 100 lateTick).2 "a"
    due_lateTick

/-- **An accepted job is forgotten**: at a tick after the end of its slot the job is in the state
machine and in its slot, but the wheel is empty and nothing is executed. -/
theorem accepted_job_forgotten :
    let s := newSimulator smallConfig 100 100
    s.Due plainLibraries lateTick "a" ∧ s.executions plainLibraries lateTick = [] ∧
      ((s.run plainLibraries lateTick).worker.fsm.getJob "a").isSome ∧
      ((s.run plainLibraries lateTick).worker.fsm.getSlot 10 false).map SlotData.jobIDs
        = some ["a"] ∧
      (s.run plainLibraries lateTick).worker.wheel.size = 0 :=
  ⟨due_lateTick, by decide +kernel, by decide +kernel, by decide +kernel, by decide +kernel⟩

end Simulator

end ScheduledDb
