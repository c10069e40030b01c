import ScheduledDb.Simulator
import ScheduledDb.Store.Snapshot

/-!
# The totals of the simulator

`GetState` counts ticks, executions and reschedules by going through the log of the ticks, which
keeps the last 200 results.  `tickLog_run` says what the log is after any calls: the last 200 of all
results.  So the totals are those of the whole run exactly as long as nothing has been dropped
(`totals_iff`), and the 201st tick is not counted.
-/

namespace ScheduledDb

open List

/-! ## The last entries of a log -/

section LastEntries

variable {α : Type} (a b : List α)

lemma lastEntries_of_length_le {a : List α} (h : a.length ≤ 200) : lastEntries a = a := by
  rw [lastEntries, Nat.sub_eq_zero_of_le h, drop_zero]

lemma length_lastEntries : (lastEntries a).length = min 200 a.length := by
  rw [lastEntries, length_drop]
  omega

/-- What was dropped before would be dropped now. -/
lemma lastEntries_lastEntries_append : lastEntries (lastEntries a ++ b) = lastEntries (a ++ b) := by
  obtain hshort | hlong := Nat.le_total a.length 200
  · rw [lastEntries_of_length_le hshort]
  · have hlength : (lastEntries a ++ b).length = 200 + b.length := by
      rw [length_append, length_lastEntries, Nat.min_eq_left hlong]
    have hdrop : lastEntries a ++ b = (a ++ b).drop (a.length - 200) := by
      rw [lastEntries, drop_append_of_le_length (Nat.sub_le _ _)]
    have hdropped : a.length - 200 + (200 + b.length - 200) = (a ++ b).length - 200 := by
      rw [length_append]
      omega
    rw [lastEntries, hlength, hdrop, drop_drop, hdropped, lastEntries]

end LastEntries

/-! ## State and reset -/

structure SimState where
  now : ℤ
  clockSpeed : ℚ
  jobs : Finmap fun _ : String => Job
  slots : Finmap fun _ : ℤ => SlotData
  executionStates : Finmap fun _ : String => JobExecutionState
  wheelSize : ℕ
  execLog : List ExecutionResult
  tickCount : ℕ
  totalExecuted : ℕ
  totalRescheduled : ℕ

namespace Simulator

def getState (s : Simulator) : SimState :=
  let snap := s.worker.fsm.getSnapshot
  { now := s.worker.clock.now
    clockSpeed := s.worker.clock.speed
    jobs := snap.jobs
    slots := snap.slots
    executionStates := snap.executionStates
    wheelSize := s.worker.wheel.size
    execLog := s.worker.executor.execLog
    tickCount := s.tickLog.length
    totalExecuted := s.tickLog.foldl (fun total tr => total + tr.executedJobs.length) 0
    totalRescheduled := s.tickLog.foldl (fun total tr => total + tr.rescheduled.length) 0 }

/-- `Reset`, with the wall clock at hand.  The speed of the clock, the executor's rates and the
levels of the wheel stay. -/
def reset (s : Simulator) (now : ℤ) : Simulator where
  worker :=
    { clock := { s.worker.clock with now := now }
      executor := { s.worker.executor with execLog := [] }
      fsm := newFSM
      wheel := s.worker.wheel.reset.init now
      slotGap := s.worker.slotGap }
  tickLog := []

/-- A simulator that has just been constructed or reset. -/
inductive JustStarted : Simulator → Prop where
  | new (cfg : SimulatorConfig) (now later : ℤ) : JustStarted (newSimulator cfg now later)
  | reset (s : Simulator) (now : ℤ) : JustStarted (s.reset now)

variable {s : Simulator}

lemma JustStarted.tickLog (h : s.JustStarted) : s.tickLog = [] := by
  cases h <;> rfl

/-! ## What a run has done -/

def Call.isTick : Call → Bool
  | .tick _ => true
  | _ => false

variable (lib : Libraries)

/-- The result of a call, if it is a tick. -/
def tickResult (s : Simulator) : Call → List TickResult
  | .tick draws => [(s.tick lib.cron draws).2]
  | _ => []

/-- The results of all ticks of a run. -/
def tickResults : Simulator → List Call → List TickResult
  | _, [] => []
  | s, call :: rest => tickResult lib s call ++ tickResults (act lib s call) rest

/-- All reschedules of a run. -/
def reschedules (s : Simulator) (calls : List Call) : List String :=
  (s.tickResults lib calls).flatMap (·.rescheduled)

lemma executions_eq (s : Simulator) (calls : List Call) :
    s.executions lib calls = (s.tickResults lib calls).flatMap (·.executedJobs) := by
  induction calls generalizing s with
  | nil => rfl
  | cons call rest ih =>
    rw [executions, tickResults, flatMap_append, ih]
    cases call <;> simp [executed, tickResult]

/-- **One result for each tick.** -/
lemma length_tickResults (s : Simulator) (calls : List Call) :
    (s.tickResults lib calls).length = calls.countP Call.isTick := by
  induction calls generalizing s with
  | nil => rfl
  | cons call rest ih =>
    rw [tickResults, length_append, ih, countP_cons, Nat.add_comm]
    cases call <;> rfl

lemma tickResults_append (s : Simulator) (before after : List Call) :
    s.tickResults lib (before ++ after)
      = s.tickResults lib before ++ (s.run lib before).tickResults lib after := by
  induction before generalizing s with
  | nil => rfl
  | cons call before ih =>
    rw [cons_append, tickResults, ih, tickResults, append_assoc]
    rfl

/-! ## The log -/

lemma tickLog_createJob (parsers : Parsers) (s : Simulator) (req : CreateJobRequest) (uuid : String)
    (wallClock : ℤ) : (s.createJob parsers req uuid wallClock).1.tickLog = s.tickLog := by
  unfold createJob
  cases req.build parsers (if req.id = "" then uuid else req.id) wallClock <;> rfl

/-- **What a call does to the log**: a tick appends its result, and the log is cut to size. -/
lemma tickLog_act (h : s.tickLog.length ≤ 200) (call : Call) :
    (s.act lib call).tickLog = lastEntries (s.tickLog ++ s.tickResult lib call) := by
  have hsame : s.tickLog = lastEntries (s.tickLog ++ []) := by
    rw [append_nil, lastEntries_of_length_le h]
  cases call with
  | createJob req uuid wallClock =>
    exact (tickLog_createJob lib.parsers s req uuid wallClock).trans hsame
  | deleteJob id => exact hsame
  | advanceTime seconds => exact hsame
  | tick draws => simp only [act, tick, tickResult]

/-- **What a run does to the log**: it keeps the last 200 results. -/
lemma tickLog_run (h : s.tickLog.length ≤ 200) (calls : List Call) :
    (s.run lib calls).tickLog = lastEntries (s.tickLog ++ s.tickResults lib calls) := by
  induction calls generalizing s with
  | nil =>
    rw [tickResults, append_nil, lastEntries_of_length_le h]
    rfl
  | cons call rest ih =>
    have hact := tickLog_act lib h call
    have hlength : (s.act lib call).tickLog.length ≤ 200 := by
      rw [hact, length_lastEntries]
      exact Nat.min_le_left 200 _
    rw [tickResults, ← append_assoc, ← lastEntries_lastEntries_append, ← hact, ← ih hlength]
    rfl

lemma JustStarted.tickLog_run (h : s.JustStarted) (calls : List Call) :
    (s.run lib calls).tickLog = lastEntries (s.tickResults lib calls) := by
  have hempty : s.tickLog.length ≤ 200 := by simp [h.tickLog]
  rw [Simulator.tickLog_run lib hempty, h.tickLog, nil_append]

/-! ## The totals -/

lemma foldl_add_length {α β : Type} (f : α → List β) (l : List α) (n : ℕ) :
    l.foldl (fun total a => total + (f a).length) n = n + (l.flatMap f).length := by
  induction l generalizing n with
  | nil => rfl
  | cons a l ih => rw [foldl_cons, ih, flatMap_cons, length_append, Nat.add_assoc]

lemma totalExecuted_eq (s : Simulator) :
    s.getState.totalExecuted = (s.tickLog.flatMap (·.executedJobs)).length :=
  (foldl_add_length _ _ 0).trans (Nat.zero_add _)

lemma totalRescheduled_eq (s : Simulator) :
    s.getState.totalRescheduled = (s.tickLog.flatMap (·.rescheduled)).length :=
  (foldl_add_length _ _ 0).trans (Nat.zero_add _)

/-- **The ticks that are counted** are at most 200. -/
lemma JustStarted.tickCount_run (h : s.JustStarted) (calls : List Call) :
    (s.run lib calls).getState.tickCount = min 200 (calls.countP Call.isTick) := by
  change (s.run lib calls).tickLog.length = _
  rw [h.tickLog_run, length_lastEntries, length_tickResults]

/-- The totals of `GetState` are those of all the calls. -/
structure TotalsOf (s : Simulator) (calls : List Call) : Prop where
  tickCount : (s.run lib calls).getState.tickCount = calls.countP Call.isTick
  totalExecuted :
    (s.run lib calls).getState.totalExecuted = (s.executions lib calls).length
  totalRescheduled :
    (s.run lib calls).getState.totalRescheduled = (s.reschedules lib calls).length

lemma JustStarted.totalsOf (h : s.JustStarted) {calls : List Call}
    (hticks : calls.countP Call.isTick ≤ 200) : s.TotalsOf lib calls := by
  have hlog : (s.run lib calls).tickLog = s.tickResults lib calls := by
    rw [h.tickLog_run, lastEntries_of_length_le]
    rwa [length_tickResults]
  exact
    { tickCount := by rw [h.tickCount_run, Nat.min_eq_right hticks]
      totalExecuted := by rw [totalExecuted_eq, hlog, executions_eq]
      totalRescheduled := by rw [totalRescheduled_eq, hlog, reschedules] }

/-- **The totals are totals for 200 ticks.**  After construction or a reset they are those of all
calls since then exactly if at most 200 of these are ticks; and so long they never decrease. -/
theorem totals_iff {s : Simulator} (h : s.JustStarted) (calls : List Call) :
    (s.TotalsOf lib calls ↔ calls.countP Call.isTick ≤ 200) ∧
    (calls.countP Call.isTick ≤ 200 → ∀ before after, calls = before ++ after →
      (s.run lib before).getState.tickCount ≤ (s.run lib calls).getState.tickCount ∧
      (s.run lib before).getState.totalExecuted ≤ (s.run lib calls).getState.totalExecuted ∧
      (s.run lib before).getState.totalRescheduled
        ≤ (s.run lib calls).getState.totalRescheduled) := by
  refine ⟨⟨fun htotals => ?_, h.totalsOf lib⟩, fun hticks before after hsplit => ?_⟩
  · have hcount := htotals.tickCount
    rw [h.tickCount_run] at hcount
    omega
  · have hwhole := h.totalsOf lib hticks
    subst hsplit
    rw [countP_append] at hticks
    have hpart : s.TotalsOf lib before := h.totalsOf lib (by omega)
    rw [hwhole.tickCount, hwhole.totalExecuted, hwhole.totalRescheduled, hpart.tickCount,
      hpart.totalExecuted, hpart.totalRescheduled, executions_eq, executions_eq, reschedules,
      reschedules, tickResults_append, countP_append, flatMap_append,
      flatMap_append, length_append, length_append]
    omega

/-- A simulator is used, reset and used again: the first tick is not counted any more. -/
theorem totals_after_reset :
    let s := ((newSimulator smallConfig 100 100).run plainLibraries lateTick).reset 500
    lateTick.countP Call.isTick ≤ 200 ∧ s.TotalsOf plainLibraries lateTick := by
  intro s
  have hticks : lateTick.countP Call.isTick ≤ 200 := by decide
  exact ⟨hticks, (totals_iff plainLibraries (.reset _ 500) lateTick).1.mpr hticks⟩

/-- **The 201st tick** is not counted. -/
theorem tick_not_counted :
    let s := newSimulator smallConfig 100 100
    let calls : List Call := replicate 201 (.tick fun _ => ⟨0, 0⟩)
    calls.countP Call.isTick = 201 ∧ (s.run plainLibraries calls).getState.tickCount = 200 ∧
      ¬ s.TotalsOf plainLibraries calls := by
  intro s calls
  have hticks : calls.countP Call.isTick = 201 := by
    rw [countP_replicate, if_pos (by rfl)]
  have hcount : (s.run plainLibraries calls).getState.tickCount = 200 := by
    rw [(JustStarted.new smallConfig 100 100).tickCount_run, hticks]
    rfl
  refine ⟨hticks, hcount, fun htotals => ?_⟩
  have hall := htotals.tickCount
  omega

end Simulator

end ScheduledDb
