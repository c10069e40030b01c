import ScheduledDb.Store.Store

/-!
# The slot queue

`internal/slots/persistent_slots.go` as programs.  The queue holds no jobs, only which slot each job
id is in and which slot keys the timing wheel has to come back to; slots and jobs are in the store.

The queue's mutex is not modelled: interleavings that it rules out are possible here, so that what is
proved of all interleavings holds of fewer.
-/

namespace ScheduledDb

open Machine Program Store

structure Slot where
  key : ℤ
  minTime : ℤ
  maxTime : ℤ
  jobs : List Job
  deriving DecidableEq, Repr

/-- When a job is due: the timestamp of a `unico` job, the (next) creation time of a `recurrente`
one. -/
def Job.dueTime (job : Job) : Option ℤ :=
  match job.type with
  | .unico => job.timestamp
  | .recurrente => some job.createdAt
  | .other _ => none

namespace PersistentSlotQueue

/-- Use or change the wheel in one piece. -/
def onWheel {β : Type} (f : HierarchicalTimingWheel → HierarchicalTimingWheel × β) :
    Program Act β :=
  perform (.queue fun q => ({ q with wheel := (f q.wheel).1 }, (f q.wheel).2))

def wheelAdd (key : ℤ) : Program Act Unit := onWheel fun w => (w.add key, ())

def wheelRemove (key : ℤ) : Program Act Unit := onWheel fun w => (w.remove key, ())

/-- Use or change the index in one piece. -/
def onIndex {β : Type}
    (f : (Finmap fun _ : String => ℤ) → (Finmap fun _ : String => ℤ) × β) : Program Act β :=
  perform (.queue fun q => ({ q with jobToSlot := (f q.jobToSlot).1 }, (f q.jobToSlot).2))

/-- `int64(psq.slotGap.Seconds())` -/
def slotGapSeconds : Program Act ℤ := perform (.queue fun q => (q, seconds q.slotGap))

/-- Start the wheel's clock if it does not run yet. -/
def ensureInit : Program Act Unit := do
  if ← onWheel fun w => (w, w.initialized) then pure ()
  else do
    let now ← perform .now
    onWheel fun w => (w.init now, ())

/-- A slot as `AddJob` writes it for its first job. -/
def newSlotData (key slotGapSeconds : ℤ) (jobID : String) : SlotData where
  key := key
  minTime := wrap64 (key * slotGapSeconds)
  maxTime := wrap64 (wrap64 (wrap64 (key + 1) * slotGapSeconds) - 1)
  jobIDs := [jobID]

def addJob (job : Job) : Program Act Unit :=
  match job.dueTime with
  | none => pure ()
  | some timestamp => do
      let gap ← slotGapSeconds
      let key := timestamp.tdiv gap
      ensureInit
      let slotData :=
        match ← Store.getSlot key with
        | none => newSlotData key gap job.id
        | some slotData => { slotData with jobIDs := slotData.jobIDs ++ [job.id] }
      Store.ifLeader (Store.createSlot slotData)
      onIndex fun m => (m.insert job.id key, ())
      wheelAdd key

/-- Write back a slot that has lost a job; an empty one is deleted. -/
def shrinkSlot (key : ℤ) (slotData : SlotData) : Program Act Unit := do
  if slotData.jobIDs = [] then do
    Store.ifLeader (Store.deleteSlot key)
    wheelRemove key
  else Store.ifLeader (Store.createSlot slotData)

/-- The slot without the first entry of `jobID`. -/
def without (slotData : SlotData) (jobID : String) : SlotData :=
  { slotData with jobIDs := slotData.jobIDs.erase jobID }

/-- Take a job out of a slot that the index did not know about. -/
def removeFound (jobID : String) (key : ℤ) (slotData : SlotData) : Program Act Unit := do
  shrinkSlot key (without slotData jobID)
  onIndex fun m => ((m.insert jobID key).erase jobID, ())

/-- The search through the slots in memory. -/
def removeFromHot (jobID : String) : List (Σ _ : ℤ, SlotData) → Program Act Unit
  | [] => pure ()
  | ⟨key, slotData⟩ :: rest =>
    if jobID ∈ slotData.jobIDs then removeFound jobID key slotData
    else removeFromHot jobID rest

/-- The search through the cold slots, which comes first, and goes on with `hot`. -/
def removeFromCold (jobID : String) (hot : Program Act Unit) : List ℤ → Program Act Unit
  | [] => hot
  | key :: rest => do
      match ← perform (.getColdSlotData key) with
      | some (some slotData) =>
        if jobID ∈ slotData.jobIDs then removeFound jobID key slotData
        else removeFromCold jobID hot rest
      | _ => removeFromCold jobID hot rest

def removeJobFallback (jobID : String) : Program Act Unit := do
  if ← perform .isColdSpillingEnabled then do
    let slots ← perform .getAllSlots
    let coldKeys ← perform .getColdSlotKeys
    removeFromCold jobID (removeFromHot jobID slots) coldKeys
  else do
    let slots ← perform .getAllSlots
    removeFromHot jobID slots

def removeJob (jobID : String) : Program Act Unit := do
  match ← onIndex fun m => (m, m.lookup jobID) with
  | none => removeJobFallback jobID
  | some key => do
      onIndex fun m => (m.erase jobID, ())
      match ← Store.getSlot key with
      | none => pure ()
      | some slotData => shrinkSlot key (without slotData jobID)

/-- What `GetNextSlot` does with a key that `Advance` has returned: nothing, unless its slot is gone
or empty. -/
def dropIfDead (key : ℤ) : Program Act Unit := do
  match ← Store.getSlot key with
  | none => wheelRemove key
  | some slotData =>
    if slotData.jobIDs = [] then do
      wheelRemove key
      Store.ifLeader (Store.deleteSlot key)
    else pure ()

/-- The jobs of a slot that still exist. -/
def collectJobs : List String → Program Act (List Job)
  | [] => pure []
  | jobID :: rest => do
      let job ← perform (.getJob jobID)
      let jobs ← collectJobs rest
      pure (job.toList ++ jobs)

/-- The slot the wheel has earliest, if there are jobs in it. -/
def peekSlot : Program Act (Option Slot) := do
  let minTime ← onWheel fun w => (w, w.peekMin)
  if minTime = -1 then pure none
  else do
    let gap ← slotGapSeconds
    let minKey := minTime.tdiv gap
    match ← Store.getSlot minKey with
    | none => pure none
    | some slotData => do
        let jobs ← collectJobs slotData.jobIDs
        if jobs = [] then pure none
        else pure (some ⟨minKey, slotData.minTime, slotData.maxTime, jobs⟩)

def getNextSlot : Program Act (Option Slot) := do
  ensureInit
  let now ← perform .now
  let readyKeys ← onWheel fun w => w.advance now
  forEach readyKeys dropIfDead
  peekSlot

/-- Drop the jobs of a slot from the index. -/
def untrack : Option SlotData → Program Act Unit
  | none => pure ()
  | some slotData =>
    onIndex fun m => (slotData.jobIDs.foldl (fun m jobID => m.erase jobID) m, ())

def removeSlot (key : ℤ) : Program Act Unit := do
  let slotData ← Store.getSlot key
  untrack slotData
  wheelRemove key
  Store.ifLeader (Store.deleteSlot key)

/-- Note down a slot's jobs and have the wheel come back to it. -/
def trackSlot (key : ℤ) (slotData : SlotData) : Program Act Unit := do
  onIndex fun m => (slotData.jobIDs.foldl (fun m jobID => m.insert jobID key) m, ())
  wheelAdd key

def trackColdSlot (key : ℤ) : Program Act Unit := do
  match ← perform (.getColdSlotData key) with
  | some (some slotData) => trackSlot key slotData
  | _ => pure ()

/-- `LoadJobs`, whose argument the source does not use. -/
def loadJobs : Program Act Unit := do
  onIndex fun _ => (∅, ())
  onWheel fun w => (w.reset, ())
  let now ← perform .now
  onWheel fun w => (w.init now, ())
  let slots ← perform .getAllSlots
  forEach slots fun slot => trackSlot slot.1 slot.2
  if ← perform .isColdSpillingEnabled then do
    let coldKeys ← perform .getColdSlotKeys
    forEach coldKeys trackColdSlot

/-- The event handler that `App` installs. -/
def jobEventHandler (event : JobEvent) (job : Option Job) : Program Act Unit := do
  if ← perform .isLeader then
    match event, job with
    | .created, some job => addJob job
    | .deleted, some job => removeJob job.id
    | _, none => pure ()
  else pure ()

/-! ## The queue writes slots only -/

/-- A command that writes or deletes a slot. -/
def IsSlotCommand (cmd : Command) : Prop := cmd.type = .createSlot ∨ cmd.type = .deleteSlot

variable {cmd : Command} {β : Type} {P : Command → Prop}

lemma IsSlotCommand.leavesJobs (h : IsSlotCommand cmd) : cmd.LeavesJobs := by
  rcases h with h | h <;> simp [Command.LeavesJobs, h]

lemma IsSlotCommand.executionStates (h : IsSlotCommand cmd) (f : FSM) (faults : ColdFaults) :
    (f.apply faults cmd).1.executionStates = f.executionStates := by
  have hwire : cmd.wire.type = cmd.type := rfl
  rw [FSM.apply_fst]
  rcases h with h | h
  · simp only [FSM.effect, hwire, h]
    cases cmd.wire.slot with
    | none => rfl
    | some slot => rfl
  · simp only [FSM.effect, hwire, h, FSM.keyEffect]
    split_ifs
    · rfl
    · cases scanKey cmd.wire.id with
      | none => rfl
      | some key => rfl

lemma all_createSlot (slotData : SlotData) : All (Quiet IsSlotCommand) (createSlot slotData) :=
  all_propose (Or.inl rfl)

lemma all_deleteSlot (key : ℤ) : All (Quiet IsSlotCommand) (deleteSlot key) :=
  all_propose (Or.inr rfl)

lemma all_onWheel (f : HierarchicalTimingWheel → HierarchicalTimingWheel × β) :
    All (Quiet P) (onWheel f) :=
  ⟨trivial, fun _ => trivial⟩

lemma all_onIndex (f : (Finmap fun _ : String => ℤ) → (Finmap fun _ : String => ℤ) × β) :
    All (Quiet P) (onIndex f) :=
  ⟨trivial, fun _ => trivial⟩

lemma all_ensureInit : All (Quiet IsSlotCommand) ensureInit := by
  simp only [ensureInit, onWheel, perform_bind, all_step, all_ite]
  exact ⟨trivial, fun _ => ⟨fun _ => trivial,
    fun _ => ⟨trivial, fun _ => ⟨trivial, fun _ => trivial⟩⟩⟩⟩

lemma all_addJob (job : Job) : All (Quiet IsSlotCommand) (addJob job) := by
  unfold addJob
  cases job.dueTime with
  | none => trivial
  | some timestamp =>
    refine ⟨trivial, fun gap => all_ensureInit.bind fun _ =>
      (all_getSlot trivial trivial).bind fun slot => ?_⟩
    exact (all_ifLeader (all_createSlot _)).bind fun _ =>
      (all_onIndex _).bind fun _ => all_onWheel _

lemma all_shrinkSlot (key : ℤ) (slotData : SlotData) :
    All (Quiet IsSlotCommand) (shrinkSlot key slotData) := by
  simp only [shrinkSlot, all_ite]
  exact ⟨fun _ => (all_ifLeader (all_deleteSlot key)).bind fun _ => all_onWheel _,
    fun _ => all_ifLeader (all_createSlot slotData)⟩

lemma all_removeFound (jobID : String) (key : ℤ) (slotData : SlotData) :
    All (Quiet IsSlotCommand) (removeFound jobID key slotData) :=
  (all_shrinkSlot key _).bind fun _ => all_onIndex _

lemma all_removeFromHot (jobID : String) (slots : List (Σ _ : ℤ, SlotData)) :
    All (Quiet IsSlotCommand) (removeFromHot jobID slots) := by
  induction slots with
  | nil => trivial
  | cons slot rest ih =>
    simp only [removeFromHot, all_ite]
    exact ⟨fun _ => all_removeFound jobID _ _, fun _ => ih⟩

lemma all_removeFromCold (jobID : String) {hot : Program Act Unit}
    (hhot : All (Quiet IsSlotCommand) hot) (keys : List ℤ) :
    All (Quiet IsSlotCommand) (removeFromCold jobID hot keys) := by
  induction keys with
  | nil => exact hhot
  | cons key rest ih =>
    refine ⟨trivial, fun r => ?_⟩
    match r with
    | none => exact ih
    | some none => exact ih
    | some (some slotData) =>
      refine all_ite.mpr ?_
      exact ⟨fun _ => all_removeFound jobID key slotData, fun _ => ih⟩

lemma all_removeJobFallback (jobID : String) :
    All (Quiet IsSlotCommand) (removeJobFallback jobID) := by
  simp only [removeJobFallback, perform_bind, all_step, all_ite]
  refine ⟨trivial, fun _ => ⟨fun _ => ⟨trivial, fun slots => ⟨trivial, fun keys => ?_⟩⟩,
    fun _ => ⟨trivial, fun slots => all_removeFromHot jobID slots⟩⟩⟩
  exact all_removeFromCold jobID (all_removeFromHot jobID slots) keys

lemma all_removeJob (jobID : String) : All (Quiet IsSlotCommand) (removeJob jobID) := by
  refine ⟨trivial, fun key => ?_⟩
  match key with
  | none => exact all_removeJobFallback jobID
  | some key =>
    refine ⟨trivial, fun _ => (all_getSlot trivial trivial).bind fun slot => ?_⟩
    match slot with
    | none => trivial
    | some slotData => exact all_shrinkSlot key _

lemma all_jobEventHandler (event : JobEvent) (job : Option Job) :
    All (Quiet IsSlotCommand) (jobEventHandler event job) := by
  simp only [jobEventHandler, perform_bind, all_step, all_ite]
  refine ⟨trivial, fun _ => ⟨fun _ => ?_, fun _ => trivial⟩⟩
  cases job with
  | none => cases event <;> trivial
  | some job =>
    cases event with
    | created => exact all_addJob job
    | deleted => exact all_removeJob job.id

/-! ## Creating and deleting with the queue's handler -/

section Stable

variable {thread : ℕ} {guard : ∀ β : Type, Act β → Env → Node → Prop} {n : Node}
  {Q : Option String → Node → Prop} {R : Unit → Node → Prop} {event : JobEvent} {job : Option Job}

lemma wpWith_notify (h : ∀ n', n.fsm.SameJobs n'.fsm → R () n') :
    wpWith (demonic (handle thread) guard) (notify jobEventHandler event job) R n := by
  have hquiet : All (Quiet IsSlotCommand) (notify jobEventHandler event job) :=
    all_notify all_jobEventHandler event job
  exact wpWith_mono demonic_mono (wpWith_quiet
    (quiet_mono hquiet fun _ h => h.leavesJobs) n) fun _ n' hn' => h n' hn'

variable (hstable : ∀ {β : Type} (a : Act β) (e : Env) (n : Node), guard β a e n → e.Stable)

include hstable

/-- On a stable leader the queue's handler does what the event asks for. -/
lemma wpWith_handler (h : wpWith (demonic (handle thread) guard)
      (match event, job with
        | .created, some job => addJob job
        | .deleted, some job => removeJob job.id
        | _, none => pure ()) R n) :
    wpWith (demonic (handle thread) guard) (notify jobEventHandler event job) R n := by
  simp only [notify, jobEventHandler, perform_bind, wpWith_step]
  intro e he
  refine wpWith_ite.mpr ⟨fun _ => ?_, fun hno => absurd (hstable _ e n he).1 hno⟩
  intro e' he'
  exact wpWith_ite.mpr ⟨fun _ => h, fun hno => absurd (hstable _ e' n he').1 hno⟩

/-- On a stable leader a job is created, and besides that only slots change. -/
lemma wpWith_createJob {job : Job}
    (h : ∀ e n', guard _ (.raftApply { type := .createJob, job := some job }) e n →
      (n.fsm.apply e.faults { type := .createJob, job := some job }).1.SameJobs n'.fsm → Q none n') :
    wpWith (demonic (handle thread) guard) (createJob jobEventHandler job) Q n :=
  wpWith_bind.mpr (wpWith_propose hstable fun e he =>
    wpWith_bind.mpr (wpWith_notify fun n' hn' => h e n' he hn'))

/-- On a stable leader a job is deleted, and besides that only slots change. -/
lemma wpWith_deleteJob {id : String}
    (h : ∀ e n', guard _ (.raftApply { type := .deleteJob, id := id }) e n →
      (n.fsm.apply e.faults { type := .deleteJob, id := id }).1.SameJobs n'.fsm → Q none n') :
    wpWith (demonic (handle thread) guard) (Store.deleteJob jobEventHandler id) Q n :=
  Store.wpWith_deleteJob hstable fun e he => wpWith_notify fun n' hn' => h e n' he hn'

end Stable

end PersistentSlotQueue

end ScheduledDb
