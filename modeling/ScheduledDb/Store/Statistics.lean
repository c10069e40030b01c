import Mathlib.Order.Bounds.Basic
import Mathlib.Data.Rat.Defs
import ScheduledDb.Store.ExecutionStates
import ScheduledDb.Store.StatusTracker

/-!
# Execution statistics

`GetExecutionStats` goes over a copy of all execution states in the order of a map, with one counter
for each of the six statuses, and `ListByStatus` filters the same copy.

The counters add up to the number of states only because no log can lead to a status that the
`switch` does not know (`FSM.counted_of_log`).  With that, the statistics of every reachable state
are a partition of its execution states (`stats_partition`).
-/

namespace ScheduledDb

open Machine Program List

/-- The statuses that the source has constants for. -/
def JobStatus.all : List JobStatus :=
  [.pending, .inProgress, .completed, .failed, .cancelled, .timeout]

structure ExecutionStats where
  pending : ℤ := 0
  inProgress : ℤ := 0
  completed : ℤ := 0
  failed : ℤ := 0
  cancelled : ℤ := 0
  timeout : ℤ := 0
  total : ℤ
  lastExecuted : ℤ := 0
  /-- Before it is rounded to a `float64`. -/
  failureRate : ℚ := 0
  deriving DecidableEq, Repr

namespace ExecutionStats

/-- `stats.LastExecuted` after a look at one more completion. -/
def latest (stats : ExecutionStats) (completedAt : ℤ) : ℤ :=
  if completedAt > stats.lastExecuted then completedAt else stats.lastExecuted

/-- One state of the loop in `GetExecutionStats`. -/
def see (stats : ExecutionStats) (state : JobExecutionState) : ExecutionStats :=
  match state.status with
  | .pending => { stats with pending := stats.pending + 1 }
  | .inProgress => { stats with inProgress := stats.inProgress + 1 }
  | .completed =>
    { stats with
      completed := stats.completed + 1
      lastExecuted := stats.latest state.completedAt }
  | .failed =>
    { stats with
      failed := stats.failed + 1
      lastExecuted := stats.latest state.completedAt }
  | .cancelled => { stats with cancelled := stats.cancelled + 1 }
  | .timeout => { stats with timeout := stats.timeout + 1 }
  | .other _ => stats

/-- The failure rate, once all states are counted. -/
def rated (stats : ExecutionStats) : ExecutionStats :=
  let finishedCount := stats.completed + stats.failed + stats.timeout
  if finishedCount > 0 then
    { stats with failureRate := ((stats.failed + stats.timeout : ℤ) : ℚ) / (finishedCount : ℚ) }
  else stats

/-- The counter of a status. -/
def count (stats : ExecutionStats) : JobStatus → ℤ
  | .pending => stats.pending
  | .inProgress => stats.inProgress
  | .completed => stats.completed
  | .failed => stats.failed
  | .cancelled => stats.cancelled
  | .timeout => stats.timeout
  | .other _ => 0

end ExecutionStats

namespace StatusTracker

/-- The error that both functions return beside their result is always `nil`. -/
def getExecutionStats : Program Act ExecutionStats := do
  let allStates ← perform .getAllExecutionStates
  let stats := (allStates.map Sigma.snd).foldl ExecutionStats.see
    { total := allStates.length }
  pure stats.rated

def listByStatus (status : JobStatus) : Program Act (List JobExecutionState) := do
  let allStates ← perform .getAllExecutionStates
  pure ((allStates.map Sigma.snd).filter fun state => state.status = status)

end StatusTracker

/-! ## The loop -/

/-- The job was executed: its last attempt succeeded or failed. -/
def JobExecutionState.Executed (state : JobExecutionState) : Prop :=
  state.status = .completed ∨ state.status = .failed

namespace ExecutionStats

variable (stats : ExecutionStats) {status : JobStatus} {state : JobExecutionState}

@[simp] lemma rated_total : stats.rated.total = stats.total := by
  simp only [rated]
  split <;> rfl

@[simp] lemma rated_lastExecuted : stats.rated.lastExecuted = stats.lastExecuted := by
  simp only [rated]
  split <;> rfl

@[simp] lemma rated_count (status : JobStatus) : stats.rated.count status = stats.count status := by
  simp only [rated]
  split
  · cases status <;> rfl
  · rfl

lemma see_total (state : JobExecutionState) : (stats.see state).total = stats.total := by
  unfold see
  split <;> rfl

lemma see_count (state : JobExecutionState) (h : status ∈ JobStatus.all) :
    (stats.see state).count status
      = stats.count status + if state.status = status then 1 else 0 := by
  simp only [JobStatus.all, mem_cons, not_mem_nil, or_false] at h
  cases hstate : state.status with
  | _ => rcases h with rfl | rfl | rfl | rfl | rfl | rfl <;> simp [see, hstate, count]

lemma see_lastExecuted_of_executed (h : state.Executed) :
    (stats.see state).lastExecuted = max stats.lastExecuted state.completedAt := by
  have hlatest : stats.latest state.completedAt = max stats.lastExecuted state.completedAt := by
    unfold latest
    split <;> omega
  rcases h with h | h
  · simpa [see, h] using hlatest
  · simpa [see, h] using hlatest

lemma see_lastExecuted_of_not_executed (h : ¬ state.Executed) :
    (stats.see state).lastExecuted = stats.lastExecuted := by
  cases hstate : state.status with
  | completed => exact absurd (Or.inl hstate) h
  | failed => exact absurd (Or.inr hstate) h
  | _ => simp [see, hstate]

variable (states : List JobExecutionState)

lemma foldl_see_total : (states.foldl see stats).total = stats.total := by
  induction states generalizing stats with
  | nil => rfl
  | cons state states ih => rw [foldl_cons, ih, see_total]

lemma foldl_see_count (h : status ∈ JobStatus.all) :
    (states.foldl see stats).count status
      = stats.count status + states.countP fun state => state.status = status := by
  induction states generalizing stats with
  | nil => simp
  | cons state states ih =>
    rw [foldl_cons, ih, see_count stats state h, countP_cons]
    by_cases hstate : state.status = status
    · simp [hstate]
      omega
    · simp [hstate]

/-- All six counters together. -/
def counted : ℤ :=
  stats.pending + stats.inProgress + stats.completed + stats.failed + stats.cancelled
    + stats.timeout

@[simp] lemma rated_counted : stats.rated.counted = stats.counted := by
  simp only [rated]
  split <;> rfl

lemma see_counted (h : state.status ∈ JobStatus.all) :
    (stats.see state).counted = stats.counted + 1 := by
  simp only [JobStatus.all, mem_cons, not_mem_nil, or_false] at h
  rcases h with h | h | h | h | h | h <;> simp only [see, h, counted] <;> omega

variable {states} in
lemma foldl_see_counted (h : ∀ state ∈ states, state.status ∈ JobStatus.all) :
    (states.foldl see stats).counted = stats.counted + states.length := by
  induction states generalizing stats with
  | nil => simp
  | cons state states ih =>
    rw [foldl_cons, ih _ fun other hother => h other (mem_cons_of_mem state hother),
      see_counted stats (h state mem_cons_self), length_cons]
    push_cast
    omega

/-- The latest completion is the running maximum over what was executed. -/
lemma foldl_see_lastExecuted :
    stats.lastExecuted ≤ (states.foldl see stats).lastExecuted ∧
      (∀ state ∈ states, state.Executed →
        state.completedAt ≤ (states.foldl see stats).lastExecuted) ∧
      ((states.foldl see stats).lastExecuted = stats.lastExecuted ∨
        ∃ state ∈ states, state.Executed ∧
          state.completedAt = (states.foldl see stats).lastExecuted) := by
  induction states generalizing stats with
  | nil => simp
  | cons state states ih =>
    obtain ⟨hle, hall, hfrom⟩ := ih (stats.see state)
    rw [foldl_cons]
    by_cases hexecuted : state.Executed
    · rw [see_lastExecuted_of_executed stats hexecuted] at hle hfrom
      refine ⟨by omega, fun other hother hother' => ?_, ?_⟩
      · rcases mem_cons.mp hother with rfl | hother
        · omega
        · exact hall other hother hother'
      · rcases hfrom with heq | ⟨other, hother, hboth⟩
        · rcases max_choice stats.lastExecuted state.completedAt with hmax | hmax
          · exact Or.inl (heq.trans hmax)
          · exact Or.inr ⟨state, mem_cons_self, hexecuted, (heq.trans hmax).symm⟩
        · exact Or.inr ⟨other, mem_cons_of_mem state hother, hboth⟩
    · rw [see_lastExecuted_of_not_executed stats hexecuted] at hle hfrom
      refine ⟨hle, fun other hother hother' => ?_, ?_⟩
      · rcases mem_cons.mp hother with rfl | hother
        · exact absurd hother' hexecuted
        · exact hall other hother hother'
      · exact hfrom.imp_right fun ⟨other, hother, hboth⟩ =>
          ⟨other, mem_cons_of_mem state hother, hboth⟩

end ExecutionStats

/-! ## Reachable states -/

/-- The loop counts the state, under a completion time that is not negative. -/
structure JobExecutionState.Counted (state : JobExecutionState) : Prop where
  status : state.status ∈ JobStatus.all
  completedAt : 0 ≤ state.completedAt

namespace JobExecutionState.Counted

lemma new (jobID : String) (createdAt : ℤ) : (newExecutionState jobID createdAt).Counted where
  status := by simp [newExecutionState, JobStatus.all]
  completedAt := by simp [newExecutionState]

/-- An accepted update is to one of the six statuses. -/
lemma update {state : JobExecutionState} {sc : StatusCommand} (h : state.Counted)
    (hvalid : validateStateTransition state.status sc.status = none) (htime : 0 ≤ sc.timestamp) :
    (state.update sc).Counted := by
  refine ⟨?_, ?_⟩
  · rw [FSM.update_status]
    rcases transition_cases hvalid with ⟨htarget, _⟩ | ⟨htarget | htarget | htarget, _⟩ |
        ⟨htarget, _⟩ <;>
      simp [htarget, JobStatus.all]
  · rw [FSM.update_completedAt]
    split
    · exact htime
    · exact h.completedAt

end JobExecutionState.Counted

namespace FSM

/-- **No log leads to a status that the loop does not count.** -/
lemma counted_of_log (coldSpilling : Bool) {log : List (ColdFaults × Command)}
    (hlog : ∀ entry ∈ log, ∀ sc ∈ entry.2.statusCommand, 0 ≤ sc.timestamp) {id : String}
    {state : JobExecutionState}
    (hstate : ((empty coldSpilling).applyLog log).executionStates.lookup id = some state) :
    state.Counted := by
  have hall : ((empty coldSpilling).applyLog log).Remembers
      (fun state (_ : Unit) => state.Counted)
      fun id => history () (fun _ _ => ()) id (empty coldSpilling) log () :=
    Remembers.applyLog (D := fun sc => 0 ≤ sc.timestamp) (fun _ _ => .new _ _)
      (fun _ _ _ h => { h with }) (fun _ _ _ h htime hvalid => h.update hvalid htime)
      (fun entry hentry _ => hlog entry hentry) (remembers_empty _ coldSpilling _)
  exact hall id state hstate

/-- The jobs whose execution state has a status. -/
def withStatus (f : FSM) (status : JobStatus) : Finset String :=
  f.executionStates.keys.filter fun id =>
    (f.executionStates.lookup id).any fun state => state.status = status

/-- The completion times of what was executed. -/
def completions (f : FSM) : Set ℤ :=
  { t | ∃ id state, f.executionStates.lookup id = some state ∧ state.Executed ∧
    state.completedAt = t }

end FSM

/-! ## The statistics -/

section Statistics

variable (thread : ℕ) (env : ℕ → Env) (n : Node)

/-- Going over the copy, in whatever order, counts the jobs with a status. -/
lemma countP_copy (e : Env) (status : JobStatus) :
    (((e.order _ n.fsm.executionStates.sortedEntries).map Sigma.snd).countP
      fun state => state.status = status) = (n.fsm.withStatus status).card := by
  rw [countP_map, (e.order_perm _ _).countP_eq]
  exact n.fsm.executionStates.countP_sortedEntries fun state => state.status = status

lemma length_copy (e : Env) :
    (e.order _ n.fsm.executionStates.sortedEntries).length = n.fsm.executionStates.keys.card := by
  have hall := n.fsm.executionStates.countP_sortedEntries fun _ => true
  rw [countP_true] at hall
  rw [(e.order_perm _ _).length_eq, hall, Finset.filter_true_of_mem]
  intro id hid
  obtain ⟨state, hstate⟩ := Option.isSome_iff_exists.mp (Finmap.lookup_isSome.mpr
    (Finmap.mem_keys.mp hid))
  simp [hstate]

lemma mem_copy_states (e : Env) (state : JobExecutionState) :
    state ∈ (e.order _ n.fsm.executionStates.sortedEntries).map Sigma.snd
      ↔ ∃ id, n.fsm.executionStates.lookup id = some state := by
  simp only [mem_map, (e.order_perm _ _).mem_iff]
  constructor
  · rintro ⟨entry, hentry, rfl⟩
    exact ⟨entry.1, (Finmap.mem_sortedEntries _ _ _).mp hentry⟩
  · rintro ⟨id, hstate⟩
    exact ⟨⟨id, state⟩, (Finmap.mem_sortedEntries _ _ _).mpr hstate, rfl⟩

/-- **Execution statistics partition the states.**  Each counter is the number of execution states
with its status, which is also how many of them `ListByStatus` finds; together they are all states;
and the last execution is the latest completion of a job that completed or failed. -/
theorem stats_partition (coldSpilling : Bool) (log : List (ColdFaults × Command))
    (hlog : ∀ entry ∈ log, ∀ sc ∈ entry.2.statusCommand, 0 ≤ sc.timestamp) (env' : ℕ → Env)
    (hn : n.fsm = (FSM.empty coldSpilling).applyLog log) :
    let stats := (run (handle thread) StatusTracker.getExecutionStats env n).2.1
    (∀ status ∈ JobStatus.all,
      stats.count status = (n.fsm.withStatus status).card ∧
      stats.count status
        = (run (handle thread) (StatusTracker.listByStatus status) env' n).2.1.length) ∧
    stats.pending + stats.inProgress + stats.completed + stats.failed + stats.cancelled
      + stats.timeout = stats.total ∧
    stats.total = n.fsm.executionStates.keys.card ∧
    (n.fsm.completions.Nonempty → IsGreatest n.fsm.completions stats.lastExecuted) ∧
    (n.fsm.completions = ∅ → stats.lastExecuted = 0) := by
  intro stats
  let copy := (env 0).order _ n.fsm.executionStates.sortedEntries
  let before : ExecutionStats := { total := copy.length }
  have hstats : stats = ((copy.map Sigma.snd).foldl ExecutionStats.see before).rated := rfl
  have hreached : ∀ state ∈ copy.map Sigma.snd, state.Counted := by
    intro state hstate
    obtain ⟨id, hstate⟩ := (mem_copy_states n (env 0) state).mp hstate
    exact FSM.counted_of_log coldSpilling hlog (hn ▸ hstate)
  have hcount : ∀ status ∈ JobStatus.all, stats.count status = (n.fsm.withStatus status).card := by
    intro status hstatus
    have hzero : before.count status = 0 := by cases status <;> rfl
    rw [hstats, ExecutionStats.rated_count, ExecutionStats.foldl_see_count _ _ hstatus,
      countP_copy, hzero, zero_add]
  obtain ⟨hnonneg, hupper, hfrom⟩ := before.foldl_see_lastExecuted (copy.map Sigma.snd)
  rw [← ExecutionStats.rated_lastExecuted (foldl _ _ _), ← hstats] at hnonneg hupper hfrom
  refine ⟨fun status hstatus => ⟨hcount status hstatus, ?_⟩, ?_, ?_, fun hsome => ?_,
    fun hnone => ?_⟩
  · rw [hcount status hstatus, ← countP_copy n (env' 0), countP_eq_length_filter]
    rfl
  · have hall := before.foldl_see_counted fun state hstate => (hreached state hstate).status
    rw [← ExecutionStats.rated_counted, ← hstats, length_map] at hall
    rw [hstats, ExecutionStats.rated_total, ExecutionStats.foldl_see_total, ← hstats]
    exact hall.trans (zero_add _)
  · rw [hstats, ExecutionStats.rated_total, ExecutionStats.foldl_see_total]
    exact congrArg Nat.cast (length_copy n (env 0))
  · have hbound : ∀ t ∈ n.fsm.completions, t ≤ stats.lastExecuted := by
      rintro t ⟨id, state, hstate, hexecuted, rfl⟩
      exact hupper state ((mem_copy_states n (env 0) state).mpr ⟨id, hstate⟩) hexecuted
    refine ⟨?_, hbound⟩
    rcases hfrom with hzero | ⟨state, hstate, hexecuted, heq⟩
    · -- all completions are at time zero
      obtain ⟨t, ht⟩ := hsome
      have hle := hbound t ht
      obtain ⟨id, state, hstate, hexecuted, rfl⟩ := ht
      have hpos := (hreached state ((mem_copy_states n (env 0) state).mpr ⟨id, hstate⟩)).completedAt
      exact ⟨id, state, hstate, hexecuted, le_antisymm hle (hzero ▸ hpos)⟩
    · obtain ⟨id, hstate⟩ := (mem_copy_states n (env 0) state).mp hstate
      exact ⟨id, state, hstate, hexecuted, heq⟩
  · rcases hfrom with hzero | ⟨state, hstate, hexecuted, heq⟩
    · exact hzero
    · obtain ⟨id, hstate⟩ := (mem_copy_states n (env 0) state).mp hstate
      have hmem : stats.lastExecuted ∈ n.fsm.completions := ⟨id, state, hstate, hexecuted, heq⟩
      rw [hnone] at hmem
      exact absurd hmem (Set.notMem_empty _)

end Statistics

/-- One job that completed, one that failed, one that waits. -/
def mixedLog : List (ColdFaults × Command) :=
  [({}, { type := .createJob, job := some { id := "a", type := .unico, timestamp := some 5 } }),
    ({}, FSM.statusUpdate { jobID := "b", status := .inProgress, nodeID := "n", timestamp := 6 }),
    ({}, FSM.statusUpdate { jobID := "b", status := .failed, timestamp := 7 }),
    ({}, FSM.statusUpdate { jobID := "c", status := .inProgress, nodeID := "n", timestamp := 6 }),
    ({}, FSM.statusUpdate { jobID := "c", status := .completed, timestamp := 9 })]

theorem stats_of_mixedLog :
    let n : Node :=
      { fsm := (FSM.empty true).applyLog mixedLog, queue := newPersistentSlotQueue 10000000000 }
    let stats := (run (handle 0) StatusTracker.getExecutionStats (fun _ => .calm 10) n).2.1
    stats = { pending := 1, completed := 1, failed := 1, total := 3, lastExecuted := 9,
              failureRate := 1 / 2 } ∧
      stats.total = n.fsm.executionStates.keys.card :=
  ⟨by decide +kernel,
    (stats_partition 0 (fun _ => .calm 10) _ true mixedLog (by decide) (fun _ => .calm 10)
      rfl).2.2.1⟩

end ScheduledDb
