import ScheduledDb.Slots.PersistentSlots
import ScheduledDb.Slots.TimingWheel.Checked
import ScheduledDb.Slots.TimingWheel.Flags

/-!
# Flags that crash the scheduler

`main` hands the slot gap and the configuration of the wheel to the queue as they were parsed.  Here
the queue is made, and its functions are run, with the checks of the runtime.

`flags_never_crash` is about flags whose slot gap is zero, which means the default, or has a whole
second, whose numbers of buckets are those of slices that can be allocated, and whose third
granularity has a whole second.  The other two granularities may be anything.

`flags_crash` shows one crash for each of these conditions.  A slot gap below a second makes
`getSlotKey` divide by zero.  A slot gap of zero is replaced by the default in the queue, but not in
the granularities that `main` derives from it, so that it makes `findBucket` divide by zero.  Without
buckets there is nothing for `Advance` to index, and a negative number of them cannot be allocated.
-/

namespace ScheduledDb

open Machine Program Runtime HierarchicalTimingWheel

/-! ## The queue with its checks -/

/-- `NewPersistentSlotQueueWithConfig` -/
def newPersistentSlotQueueWithConfigChecked (slotGap : Duration) (configs : List WheelLevelConfig) :
    Except Panic PersistentSlotQueue := do
  let slotGap := if slotGap = 0 then defaultSlotGap else slotGap
  let wheel ← newHierarchicalTimingWheelChecked slotGap configs
  pure { slotGap := slotGap, jobToSlot := ∅, wheel := wheel }

namespace PersistentSlotQueue.Checked

/-- Use or change the wheel in one piece. -/
def onWheel {β : Type} (f : HierarchicalTimingWheel → Except Panic (HierarchicalTimingWheel × β)) :
    ExceptT Panic (Program Act) β :=
  ExceptT.mk <| perform <| .queue fun q =>
    match f q.wheel with
    | .ok r => ({ q with wheel := r.1 }, .ok r.2)
    | .error panic => (q, .error panic)

/-- The wheel calls of the queue, checked. -/
def wheelAdd (key : ℤ) : ExceptT Panic (Program Act) Unit :=
  onWheel fun w => (HierarchicalTimingWheel.Checked.add w key).map (·, ())

def wheelRemove (key : ℤ) : ExceptT Panic (Program Act) Unit :=
  onWheel fun w => (HierarchicalTimingWheel.Checked.remove w key).map (·, ())

def ensureInit : ExceptT Panic (Program Act) Unit := do
  if ← ExceptT.lift (PersistentSlotQueue.onWheel fun w => (w, w.initialized)) then pure ()
  else do
    let now ← ExceptT.lift (perform .now)
    onWheel fun w => (HierarchicalTimingWheel.Checked.init w now).map (·, ())

def addJob (job : Job) : ExceptT Panic (Program Act) Unit :=
  match job.dueTime with
  | none => pure ()
  | some timestamp => do
      let gap ← ExceptT.lift slotGapSeconds
      let key ← check (div timestamp gap)
      ensureInit
      let slotData :=
        match ← ExceptT.lift (Store.getSlot key) with
        | none => newSlotData key gap job.id
        | some slotData => { slotData with jobIDs := slotData.jobIDs ++ [job.id] }
      ExceptT.lift (Store.ifLeader (Store.createSlot slotData))
      ExceptT.lift (onIndex fun m => (m.insert job.id key, ()))
      wheelAdd key

def dropIfDead (key : ℤ) : ExceptT Panic (Program Act) Unit := do
  match ← ExceptT.lift (Store.getSlot key) with
  | none => wheelRemove key
  | some slotData =>
    if slotData.jobIDs = [] then do
      wheelRemove key
      ExceptT.lift (Store.ifLeader (Store.deleteSlot key))
    else pure ()

def peekSlot : ExceptT Panic (Program Act) (Option Slot) := do
  let minTime ← onWheel fun w => (HierarchicalTimingWheel.Checked.peekMin w).map (w, ·)
  if minTime = -1 then pure none
  else do
    let gap ← ExceptT.lift slotGapSeconds
    let minKey ← check (div minTime gap)
    match ← ExceptT.lift (Store.getSlot minKey) with
    | none => pure none
    | some slotData => do
        let jobs ← ExceptT.lift (collectJobs slotData.jobIDs)
        if jobs = [] then pure none
        else pure (some ⟨minKey, slotData.minTime, slotData.maxTime, jobs⟩)

def getNextSlot : ExceptT Panic (Program Act) (Option Slot) := do
  ensureInit
  let now ← ExceptT.lift (perform .now)
  let readyKeys ← onWheel fun w => HierarchicalTimingWheel.Checked.advance w now
  readyKeys.forM dropIfDead
  peekSlot

end PersistentSlotQueue.Checked

namespace WheelCall

/-- The wheel after a call. -/
def actChecked (w : HierarchicalTimingWheel) : WheelCall → Except Panic HierarchicalTimingWheel
  | init now => HierarchicalTimingWheel.Checked.init w now
  | add slotKey => HierarchicalTimingWheel.Checked.add w slotKey
  | remove slotKey => HierarchicalTimingWheel.Checked.remove w slotKey
  | advance now => (HierarchicalTimingWheel.Checked.advance w now).map Prod.fst
  | reset => pure w.reset

open HierarchicalTimingWheel in
lemma actChecked_eq {w : HierarchicalTimingWheel} (h : w.Safe) (call : WheelCall) :
    call.actChecked w = .ok (call.act w) ∧ (call.act w).Safe := by
  cases call with
  | init now => exact ⟨checked_init now, h.init now⟩
  | add slotKey => exact checked_add h slotKey
  | remove slotKey => exact ⟨checked_remove h slotKey, h.remove slotKey⟩
  | advance now =>
    obtain ⟨hadvance, hkept⟩ := checked_advance h now
    rw [actChecked, hadvance]
    exact ⟨rfl, hkept⟩
  | reset => exact ⟨rfl, h.reset⟩

end WheelCall

/-- The calls of a run: of the queue, of its wheel, and commands that something else hands to Raft. -/
inductive SchedulingCall where
  | addJob (job : Job)
  | getNextSlot
  | wheel (call : WheelCall)
  | command (cmd : Command)

namespace SchedulingCall

def program : SchedulingCall → Program Act Unit
  | addJob job => PersistentSlotQueue.addJob job
  | getNextSlot => PersistentSlotQueue.getNextSlot >>= fun _ => pure ()
  | wheel call => PersistentSlotQueue.onWheel fun w => (call.act w, ())
  | command cmd => Store.raftApply cmd >>= fun _ => pure ()

def checked : SchedulingCall → ExceptT Panic (Program Act) Unit
  | addJob job => PersistentSlotQueue.Checked.addJob job
  | getNextSlot => PersistentSlotQueue.Checked.getNextSlot >>= fun _ => pure ()
  | wheel call => PersistentSlotQueue.Checked.onWheel fun w => (call.actChecked w).map (·, ())
  | command cmd => ExceptT.lift (Store.raftApply cmd) >>= fun _ => pure ()

end SchedulingCall

/-! ## A safe queue -/

/-- The wheel is safe and the slot gap has a whole second. -/
structure PersistentSlotQueue.Safe (q : PersistentSlotQueue) : Prop where
  wheel : q.wheel.Safe
  gap : seconds q.slotGap ≠ 0

namespace PersistentSlotQueue

variable {thread : ℕ} {α β : Type} {p : Program Act α}

/-- The two versions of a program agree on a node whose queue is safe. -/
abbrev Agree {α : Type} (thread : ℕ) (p' : ExceptT Panic (Program Act) α) (p : Program Act α) :
    Prop :=
  Succeeds (handle thread) (fun n => n.queue.Safe) p' p

/-- An action that leaves the wheel and the slot gap alone. -/
def Aside : ∀ β : Type, Act β → Prop
  | _, .queue f => ∀ q, (f q).1.wheel = q.wheel ∧ (f q).1.slotGap = q.slotGap
  | _, _ => True

lemma agree_lift (h : All Aside p) : Agree thread (ExceptT.lift p) p := by
  refine Succeeds.lift (h.mono fun a ha e n hn => ?_)
  cases a with
  | queue f =>
    obtain ⟨hwheel, hgap⟩ := ha n.queue
    exact ⟨by simpa only [handle, hwheel] using hn.wheel,
      by simpa only [handle, hgap] using hn.gap⟩
  | raftApply cmd =>
    simp only [handle]
    split_ifs
    · exact hn
    · exact hn
  | _ => exact hn

lemma agree_onWheel {f' : HierarchicalTimingWheel → Except Panic (HierarchicalTimingWheel × β)}
    {f : HierarchicalTimingWheel → HierarchicalTimingWheel × β}
    (h : ∀ w : HierarchicalTimingWheel, w.Safe → f' w = .ok (f w) ∧ (f w).1.Safe) :
    Agree thread (Checked.onWheel f') (onWheel f) := by
  refine Succeeds.action fun e n hn => ?_
  obtain ⟨hf, hkept⟩ := h n.queue.wheel hn.wheel
  exact ⟨by simp only [handle, hf], hkept, hn.gap⟩

lemma agree_wheelAdd (key : ℤ) : Agree thread (Checked.wheelAdd key) (wheelAdd key) := by
  refine agree_onWheel fun w hw => ?_
  obtain ⟨hadd, hkept⟩ := checked_add hw key
  rw [hadd]
  exact ⟨rfl, hkept⟩

lemma agree_wheelRemove (key : ℤ) : Agree thread (Checked.wheelRemove key) (wheelRemove key) := by
  refine agree_onWheel fun w hw => ?_
  rw [checked_remove hw]
  exact ⟨rfl, hw.remove key⟩

lemma agree_ensureInit : Agree thread Checked.ensureInit ensureInit := by
  refine Succeeds.bind (agree_lift ⟨fun _ => ⟨rfl, rfl⟩, fun _ => trivial⟩) fun started => ?_
  refine Succeeds.ite (fun _ => Succeeds.pure ()) fun _ => ?_
  refine Succeeds.bind (agree_lift ⟨trivial, fun _ => trivial⟩) fun now => ?_
  refine agree_onWheel fun w hw => ?_
  rw [checked_init]
  exact ⟨rfl, hw.init now⟩

/-- The slot gap can be divided by. -/
lemma agree_slotGap {f' : ℤ → ExceptT Panic (Program Act) β} {f : ℤ → Program Act β}
    (h : ∀ gap, gap ≠ 0 → Agree thread (f' gap) (f gap)) :
    Agree thread (ExceptT.lift slotGapSeconds >>= f') (slotGapSeconds >>= f) :=
  Succeeds.bind_of (agree_lift ⟨fun _ => ⟨rfl, rfl⟩, fun _ => trivial⟩) (fun _ _ hn => hn.gap) h

lemma aside_of_detached (h : All (Detached fun _ => True) p) : All Aside p := by
  refine h.mono fun a ha => ?_
  cases a with
  | queue f => exact ha.elim
  | _ => trivial

lemma aside_ifLeader {cmd : Command} : All Aside (Store.ifLeader (Store.propose cmd)) := by
  have hwrite : All Aside (Store.propose cmd) := aside_of_detached (Store.detached_propose trivial)
  simp only [Store.ifLeader, perform_bind, all_step, all_ite]
  exact ⟨trivial, fun _ => ⟨fun _ => hwrite.bind fun _ => trivial, fun _ => trivial⟩⟩

lemma agree_addJob (job : Job) : Agree thread (Checked.addJob job) (addJob job) := by
  rw [Checked.addJob, addJob]
  cases job.dueTime with
  | none => exact Succeeds.pure ()
  | some timestamp =>
    refine agree_slotGap fun gap hgap => ?_
    refine Succeeds.check_bind (div_eq_ok timestamp hgap) ?_
    refine Succeeds.bind agree_ensureInit fun _ => ?_
    refine Succeeds.bind (agree_lift (Store.all_getSlot trivial trivial)) fun found => ?_
    refine Succeeds.bind (agree_lift aside_ifLeader) fun _ => ?_
    refine Succeeds.bind (agree_lift ⟨fun _ => ⟨rfl, rfl⟩, fun _ => trivial⟩) fun _ => ?_
    exact agree_wheelAdd _

lemma agree_dropIfDead (key : ℤ) : Agree thread (Checked.dropIfDead key) (dropIfDead key) := by
  refine Succeeds.bind (agree_lift (Store.all_getSlot trivial trivial)) fun found => ?_
  cases found with
  | none => exact agree_wheelRemove key
  | some slotData =>
    refine Succeeds.ite (fun _ => ?_) fun _ => Succeeds.pure ()
    exact Succeeds.bind (agree_wheelRemove key) fun _ => agree_lift aside_ifLeader

lemma aside_collectJobs (ids : List String) : All Aside (collectJobs ids) := by
  induction ids with
  | nil => trivial
  | cons id ids ih => exact ⟨trivial, fun job => ih.bind fun jobs => trivial⟩

lemma agree_peekSlot : Agree thread Checked.peekSlot peekSlot := by
  refine Succeeds.bind (agree_onWheel fun w hw => ?_) fun minTime => ?_
  · rw [checked_peekMin hw]
    exact ⟨rfl, hw⟩
  · refine Succeeds.ite (fun _ => Succeeds.pure none) fun _ => ?_
    refine agree_slotGap fun gap hgap => ?_
    refine Succeeds.check_bind (div_eq_ok minTime hgap) ?_
    refine Succeeds.bind (agree_lift (Store.all_getSlot trivial trivial)) fun found => ?_
    cases found with
    | none => exact Succeeds.pure none
    | some slotData =>
      refine Succeeds.bind (agree_lift (aside_collectJobs _)) fun jobs => ?_
      exact Succeeds.ite (fun _ => Succeeds.pure none) fun _ => Succeeds.pure _

lemma agree_getNextSlot : Agree thread Checked.getNextSlot getNextSlot := by
  refine Succeeds.bind agree_ensureInit fun _ => ?_
  refine Succeeds.bind (agree_lift ⟨trivial, fun _ => trivial⟩) fun now => ?_
  refine Succeeds.bind (agree_onWheel fun w hw => checked_advance hw now)
    fun readyKeys => ?_
  exact Succeeds.bind (Succeeds.forEach agree_dropIfDead) fun _ => agree_peekSlot

/-- **No call fails a check**, if the queue is safe. -/
lemma agree_call (call : SchedulingCall) : Agree thread call.checked call.program := by
  cases call with
  | addJob job => exact agree_addJob job
  | getNextSlot => exact Succeeds.bind agree_getNextSlot fun _ => Succeeds.pure ()
  | wheel call =>
    rw [SchedulingCall.checked, SchedulingCall.program]
    refine agree_onWheel fun w hw => ?_
    obtain ⟨hact, hkept⟩ := call.actChecked_eq hw
    rw [hact]
    exact ⟨rfl, hkept⟩
  | command cmd =>
    have hwrite : All Aside (Store.raftApply cmd) :=
      aside_of_detached (Store.detached_raftApply trivial)
    exact Succeeds.bind (agree_lift hwrite) fun _ => Succeeds.pure ()

end PersistentSlotQueue

/-! ## Flags -/

namespace WheelFlags

/-- The queue that `main` makes of the flags, with the checks. -/
def queueChecked (flags : WheelFlags) : Except Panic PersistentSlotQueue :=
  newPersistentSlotQueueWithConfigChecked flags.slotGap flags.wheelConfigs

/-- What the runtime makes of a run that begins with the construction of the queue. -/
def crashes (flags : WheelFlags) (calls : List SchedulingCall) (fsm : FSM) (env : ℕ → Env) :
    Option Panic :=
  match flags.queueChecked with
  | .error panic => some panic
  | .ok queue =>
    match (run (handle 0) (calls.forM SchedulingCall.checked).run env ⟨fsm, queue, []⟩).2.1 with
    | .error panic => some panic
    | .ok () => none

/-- Flags that make a safe queue. -/
structure Safe (flags : WheelFlags) : Prop where
  gap : flags.slotGap = 0 ∨ 1 ≤ seconds flags.slotGap
  buckets : ∀ n ∈ [flags.level0Buckets, flags.level1Buckets, flags.level2Buckets],
    1 ≤ n ∧ n ≤ maxSliceLen
  last : ∀ c ∈ flags.wheelConfigs.getLast?, seconds c.granularity ≠ 0

variable {flags : WheelFlags}

lemma Safe.configs (h : flags.Safe) : SafeConfigs flags.wheelConfigs where
  ne_nil := by simp [wheelConfigs]
  buckets := by
    intro c hc
    refine h.buckets c.buckets ?_
    simp only [wheelConfigs, List.mem_cons, List.not_mem_nil, or_false] at hc ⊢
    rcases hc with rfl | rfl | rfl
    · exact Or.inl rfl
    · exact Or.inr (Or.inl rfl)
    · exact Or.inr (Or.inr rfl)
  last := h.last

lemma Safe.queueChecked (h : flags.Safe) : flags.queueChecked = .ok flags.queue := by
  rw [WheelFlags.queueChecked, newPersistentSlotQueueWithConfigChecked,
    newHierarchicalTimingWheelChecked_eq h.configs]
  rfl

lemma Safe.queue (h : flags.Safe) : flags.queue.Safe where
  wheel := safe_new h.configs _
  gap := by
    simp only [WheelFlags.queue, newPersistentSlotQueueWithConfig]
    split_ifs with hzero
    · decide
    · have := h.gap.resolve_left hzero
      omega

/-- **Safe flags crash nothing**, whatever is in the store, whatever is called and whatever the
environment does. -/
theorem flags_never_crash (flags : WheelFlags) (h : flags.Safe) (calls : List SchedulingCall)
    (fsm : FSM) (env : ℕ → Env) : flags.crashes calls fsm env = none := by
  have hagree : PersistentSlotQueue.Agree 0 (calls.forM SchedulingCall.checked)
      (forEach calls SchedulingCall.program) :=
    Succeeds.forEach PersistentSlotQueue.agree_call
  obtain ⟨hrun, -⟩ := hagree env ⟨fsm, flags.queue, []⟩ h.queue
  rw [crashes, h.queueChecked]
  simp only [hrun]

/-- The default flags, with a job and a clock that moves on. -/
theorem defaults_never_crash :
    let flags : WheelFlags := {}
    let job : Job := { id := "a", type := .unico, timestamp := some 5 }
    flags.Safe ∧
      flags.crashes [.addJob job, .getNextSlot, .wheel (.advance 100)] newFSM
        (fun i => Env.calm (10 * i)) = none := by
  intro flags job
  have hsafe : flags.Safe := ⟨by decide, by decide, by decide⟩
  exact ⟨hsafe, flags_never_crash flags hsafe _ _ _⟩

/-- **Flags that crash**: a slot gap of half a second, a slot gap of zero, a first level without
buckets, and a negative number of buckets. -/
theorem flags_crash :
    let job : Job := { id := "a", type := .unico, timestamp := some 5 }
    let env : ℕ → Env := fun i => Env.calm (10 * i)
    crashes { slotGap := 500000000 } [.addJob job] newFSM env = some .divideByZero ∧
      crashes { slotGap := 0 } [.addJob job] newFSM env = some .divideByZero ∧
      crashes { level0Buckets := 0 } [.getNextSlot] newFSM env = some .indexOutOfRange ∧
      crashes { level1Buckets := -1 } [] newFSM env = some .makeSliceLen := by
  decide +kernel

end WheelFlags

end ScheduledDb
