import Mathlib.Data.String.Basic
import ScheduledDb.Core.Interleaving
import ScheduledDb.Slots.TimingWheel.Def
import ScheduledDb.Store.Fsm

/-!
# One node: its state, its environment and its atomic steps

The Go functions of the store, the slot queue, the worker and the handlers are programs over the
actions below.  An action is what the source does in one piece: a look at the replicated state under
its lock, a read of the cold store, a Raft apply, an update of the queue's own data, a look at the
clock.  Everything else a function does is between two actions and touches no shared data.
`FSM.GetSlot`, which gives its lock back before it reads the cold store, is two of them.

What an action's answer depends on besides the node is in `Env`: the time, who leads, whether a
commit succeeds, how a webhook call ends, in which order a map is iterated.  Every action gets an
environment of its own, so that a function which reads the clock twice may see two times.

The node keeps a `trace` of what happened to it, for properties about what was done in which order;
nothing in the programs reads it.
-/

namespace ScheduledDb

open Machine

/-- The data of a `PersistentSlotQueue`, without its mutex. -/
structure PersistentSlotQueue where
  slotGap : Duration
  jobToSlot : Finmap fun _ : String => ℤ
  wheel : HierarchicalTimingWheel

/-- `NewPersistentSlotQueueWithConfig` -/
def newPersistentSlotQueueWithConfig (slotGap : Duration) (configs : List WheelLevelConfig) :
    PersistentSlotQueue :=
  let slotGap := if slotGap = 0 then defaultSlotGap else slotGap
  { slotGap := slotGap
    jobToSlot := ∅
    wheel := newHierarchicalTimingWheel slotGap configs }

def newPersistentSlotQueue (slotGap : Duration) : PersistentSlotQueue :=
  let slotGap := if slotGap = 0 then defaultSlotGap else slotGap
  newPersistentSlotQueueWithConfig slotGap (defaultWheelConfigs slotGap)

/-! ## The environment -/

/-- What became of a command handed to `raft.Apply`.  An error does not say whether the command was
applied. -/
inductive Commit where
  | ok
  | error (message : String) (applied : Bool)
  deriving DecidableEq, Repr

/-- What `errors.Is` can tell about a transport error. -/
inductive ErrorCause where
  | deadlineExceeded
  | canceled
  | other
  deriving DecidableEq, Repr

/-- How an HTTP call ended: no answer, or an answer with a status code. -/
inductive WebhookOutcome where
  | transportError (message : String) (cause : ErrorCause) (responseTime : ℤ)
  | response (statusCode responseTime : ℤ)
  deriving DecidableEq, Repr

structure Env where
  now : ℤ := 0
  leader : Bool := true
  commit : Commit := .ok
  webhook : WebhookOutcome := .response 200 0
  faults : ColdFaults := {}
  uuid : String := ""
  /-- The order in which a map is iterated, relative to that of the keys. -/
  order : ∀ α : Type, List α → List α := fun _ l => l
  order_perm : ∀ (α : Type) (l : List α), (order α l).Perm l := by exact fun _ l => .refl l

/-- A leader whose commits succeed, whose cold store works and whose webhook calls are answered
with status 200. -/
def Env.calm (now : ℤ) : Env where
  now := now

/-- A command handed to Raft gets applied. -/
def Env.applies (e : Env) : Bool :=
  match e.commit with
  | .ok => true
  | .error _ applied => applied

/-- On a stable leader with every Raft apply committing. -/
def Env.Stable (e : Env) : Prop := e.leader = true ∧ e.commit = .ok

instance (e : Env) : Decidable e.Stable := inferInstanceAs (Decidable (_ ∧ _))

/-! ## State -/

inductive Event where
  /-- A command was applied to the state machine. -/
  | applied (before : FSM) (cmd : Command) (response : Response)
  /-- `executeWebhook` was started. -/
  | webhook (job : Job)
  /-- The status-change callback was called. -/
  | statusChanged (oldStatus newStatus : JobStatus)

/-- The event is about a command. -/
def Event.isApplied : Event → Bool
  | applied _ _ _ => true
  | _ => false

structure Node where
  fsm : FSM
  queue : PersistentSlotQueue
  /-- What happened, oldest first, and which thread did it. -/
  trace : List (ℕ × Event) := []

namespace Node

def record (n : Node) (thread : ℕ) (e : Event) : Node := { n with trace := n.trace ++ [(thread, e)] }

/-- Apply a command to the state machine and note it down. -/
def applyCommand (n : Node) (thread : ℕ) (faults : ColdFaults) (cmd : Command) : Node :=
  { n with
    fsm := (n.fsm.apply faults cmd).1
    trace := n.trace ++ [(thread, .applied n.fsm cmd (n.fsm.apply faults cmd).2)] }

@[simp] lemma record_fsm (n : Node) (thread : ℕ) (e : Event) : (n.record thread e).fsm = n.fsm :=
  rfl

@[simp] lemma record_queue (n : Node) (thread : ℕ) (e : Event) :
    (n.record thread e).queue = n.queue := rfl

@[simp] lemma applyCommand_fsm (n : Node) (thread : ℕ) (faults : ColdFaults) (cmd : Command) :
    (n.applyCommand thread faults cmd).fsm = (n.fsm.apply faults cmd).1 := rfl

@[simp] lemma applyCommand_queue (n : Node) (thread : ℕ) (faults : ColdFaults) (cmd : Command) :
    (n.applyCommand thread faults cmd).queue = n.queue := rfl

end Node

/-! ## Actions -/

/-- The atomic steps, with the type of their answer. -/
inductive Act : Type → Type 1 where
  | now : Act ℤ
  | isLeader : Act Bool
  | newUUID : Act String
  | getJob (id : String) : Act (Option Job)
  /-- `GetSlot` as long as it holds the lock. -/
  | lookupSlot (key : ℤ) : Act (Option SlotData × Bool)
  /-- What `GetSlot` reads of a cold slot after it has released the lock. -/
  | getColdSlot (key : ℤ) : Act (Option SlotData)
  | getAllSlots : Act (List (Σ _ : ℤ, SlotData))
  | getExecutionState (jobID : String) : Act (Option JobExecutionState)
  | getAllExecutionStates : Act (List (Σ _ : String, JobExecutionState))
  | getMemoryUsage : Act ℤ
  | getJobCount : Act ℤ
  | isColdSpillingEnabled : Act Bool
  | getColdSlotKeys : Act (List ℤ)
  /-- `Store.GetColdSlotData`: an error, or an entry or none. -/
  | getColdSlotData (key : ℤ) : Act (Option (Option SlotData))
  /-- `raft.Apply` and `future.Error()`; `none` is no error.  The answer of the state machine,
  `future.Response()`, is not asked for anywhere in the source. -/
  | raftApply (cmd : Command) : Act (Option String)
  /-- A step on the queue's own data. -/
  | queue {β : Type} (f : PersistentSlotQueue → PersistentSlotQueue × β) : Act β
  | executeWebhook (job : Job) : Act WebhookOutcome
  | statusChanged (oldStatus newStatus : JobStatus) : Act Unit

/-- The command an action hands to Raft. -/
def Act.command {β : Type} : Act β → Option Command
  | .raftApply cmd => some cmd
  | _ => none

/-- What an action does, done by the thread of the given number. -/
def handle (thread : ℕ) : Program.Handler Act Env Node := fun _ a e n =>
  match a with
  | .now => (n, e.now)
  | .isLeader => (n, e.leader)
  | .newUUID => (n, e.uuid)
  | .getJob id => (n, n.fsm.getJob id)
  | .lookupSlot key => (n, n.fsm.lookupSlot key)
  | .getColdSlot key => (n, if e.faults.get.isSome then none else n.fsm.coldCopy key)
  | .getAllSlots => (n, e.order _ n.fsm.slots.sortedEntries)
  | .getExecutionState jobID => (n, n.fsm.getExecutionState jobID)
  | .getAllExecutionStates => (n, e.order _ n.fsm.executionStates.sortedEntries)
  | .getMemoryUsage => (n, n.fsm.memoryUsage)
  | .getJobCount => (n, n.fsm.jobCount)
  | .isColdSpillingEnabled => (n, n.fsm.coldStore.isSome)
  | .getColdSlotKeys => (n, e.order _ n.fsm.coldSlotMeta.val.sortedList)
  | .getColdSlotData key =>
    (n, if e.faults.get.isSome then none else n.fsm.coldStore.map fun c => c.lookup key)
  | .raftApply cmd =>
    (if e.applies then n.applyCommand thread e.faults cmd else n,
      match e.commit with
      | .ok => none
      | .error message _ => some message)
  | .queue f => ({ n with queue := (f n.queue).1 }, (f n.queue).2)
  | .executeWebhook job => (n.record thread (.webhook job), e.webhook)
  | .statusChanged oldStatus newStatus =>
    (n.record thread (.statusChanged oldStatus newStatus), ())

/-! ## What a step leaves behind -/

/-- A command is applied or not, and only in the first case it may be reported as a success. -/
lemma handle_raftApply (thread : ℕ) (cmd : Command) (e : Env) (n : Node) :
    (∃ message, handle thread _ (.raftApply cmd) e n = (n, some message)) ∨
      ∃ r, handle thread _ (.raftApply cmd) e n = (n.applyCommand thread e.faults cmd, r) := by
  cases hcommit : e.commit with
  | ok => exact Or.inr ⟨none, by simp [handle, hcommit, Env.applies]⟩
  | error message applied =>
    cases applied with
    | false => exact Or.inl ⟨message, by simp [handle, hcommit, Env.applies]⟩
    | true => exact Or.inr ⟨some message, by simp [handle, hcommit, Env.applies]⟩

/-- The state machine after a step. -/
def Act.fsm {β : Type} (a : Act β) (e : Env) (f : FSM) : FSM :=
  match a with
  | .raftApply cmd => if e.applies then (f.apply e.faults cmd).1 else f
  | _ => f

/-- The events of a step. -/
def Act.events {β : Type} (a : Act β) (thread : ℕ) (e : Env) (f : FSM) : List (ℕ × Event) :=
  match a with
  | .raftApply cmd =>
    if e.applies then [(thread, .applied f cmd (f.apply e.faults cmd).2)] else []
  | .executeWebhook job => [(thread, .webhook job)]
  | .statusChanged oldStatus newStatus => [(thread, .statusChanged oldStatus newStatus)]
  | _ => []

lemma handle_fsm {β : Type} (thread : ℕ) (a : Act β) (e : Env) (n : Node) :
    (handle thread β a e n).1.fsm = a.fsm e n.fsm := by
  cases a with
  | raftApply cmd =>
    simp only [handle, Act.fsm]
    split_ifs
    · rfl
    · rfl
  | _ => rfl

/-- What the command of a step keeps, the step keeps. -/
lemma handle_keeps {I : FSM → Prop} {β : Type} {a : Act β} {e : Env} {n : Node} (thread : ℕ)
    (hn : I n.fsm) (hI : ∀ cmd ∈ a.command, I (n.fsm.apply e.faults cmd).1) :
    I (handle thread β a e n).1.fsm := by
  rw [handle_fsm]
  cases a with
  | raftApply cmd =>
    simp only [Act.fsm]
    split_ifs
    · exact hI cmd rfl
    · exact hn
  | _ => exact hn

lemma handle_trace {β : Type} (thread : ℕ) (a : Act β) (e : Env) (n : Node) :
    (handle thread β a e n).1.trace = n.trace ++ a.events thread e n.fsm := by
  cases a with
  | raftApply cmd =>
    simp only [handle, Act.events]
    split_ifs
    · rfl
    · simp
  | executeWebhook job => rfl
  | statusChanged oldStatus newStatus => rfl
  | _ => simp [handle, Act.events]

/-- What happened between two states. -/
def Node.newEvents (n n' : Node) : List (ℕ × Event) := n'.trace.drop n.trace.length

/-- The trace has only grown since `n`, and the new events and the state machine are in a certain
relation. -/
def Node.Since (n : Node) (P : List (ℕ × Event) → FSM → Prop) (s : Node) : Prop :=
  ∃ events, s.trace = n.trace ++ events ∧ P events s.fsm

namespace Node.Since

variable {n s : Node} {P : List (ℕ × Event) → FSM → Prop}

lemma start (h : P [] n.fsm) : n.Since P n := ⟨[], (List.append_nil _).symm, h⟩

lemma newEvents (h : n.Since P s) : P (n.newEvents s) s.fsm := by
  obtain ⟨events, htrace, hP⟩ := h
  rwa [Node.newEvents, htrace, List.drop_left]

/-- What a step does to the relation: it matters only whether a command is applied. -/
lemma step {β : Type} {a : Act β} {e : Env} {thread : ℕ} (h : n.Since P s)
    (happly : ∀ events cmd, cmd ∈ a.command → P events s.fsm →
      P (events ++ [(thread, .applied s.fsm cmd (s.fsm.apply e.faults cmd).2)])
        (s.fsm.apply e.faults cmd).1)
    (hother : ∀ events x, Event.isApplied x = false → P events s.fsm →
      P (events ++ [(thread, x)]) s.fsm) : n.Since P (handle thread β a e s).1 := by
  obtain ⟨events, htrace, hP⟩ := h
  cases a with
  | raftApply cmd =>
    by_cases happlies : e.applies = true
    · refine ⟨events ++ [(thread, .applied s.fsm cmd (s.fsm.apply e.faults cmd).2)], ?_, ?_⟩
      · rw [handle_trace, htrace, List.append_assoc, Act.events, if_pos happlies]
      · rw [handle_fsm, Act.fsm, if_pos happlies]
        exact happly events cmd rfl hP
    · refine ⟨events, ?_, ?_⟩
      · rw [handle_trace, htrace, Act.events, if_neg happlies, List.append_nil]
      · rwa [handle_fsm, Act.fsm, if_neg happlies]
  | executeWebhook job =>
    exact ⟨events ++ [(thread, .webhook job)],
      by rw [handle_trace, htrace, List.append_assoc, Act.events], hother _ _ rfl hP⟩
  | statusChanged oldStatus newStatus =>
    exact ⟨events ++ [(thread, .statusChanged oldStatus newStatus)],
      by rw [handle_trace, htrace, List.append_assoc, Act.events], hother _ _ rfl hP⟩
  | _ => exact ⟨events, htrace, hP⟩

end Node.Since

/-! ## Interleavings on a stable leader -/

open Program

/-- The node leads and its commits succeed. -/
def StableLeader (_ : Config Act Node) (_ : ℕ) (β : Type) (_ : Act β) (e : Env) : Prop := e.Stable

lemma along_stable {sched : List (ℕ × Env)} (h : ∀ x ∈ sched, x.2.Stable) (c : Config Act Node) :
    Config.Along handle StableLeader c sched :=
  Config.along_of_mem (D := fun _ e => e.Stable) handle h c

end ScheduledDb
