import ScheduledDb.Api.Accounting
import ScheduledDb.Slots.Scheduling
import ScheduledDb.Store.RoundTrip

/-!
# Recording a job in the counters when writes fail

`RecordJobAdded` and `RecordJobRemoved` change two counters by two commands.  A write that fails
between them should leave both counters alone.  `RecordJobAdded` takes its first write back, but
that is a write as well and fails with the leadership that was lost; `RecordJobRemoved` does not even
try (`half_recorded`).

`recorded_iff` says which runs are right, by the writes that go through: none, both, or the first one
and the one that takes it back.  The state machine keeps counters at zero or above and lets them wrap,
so that success means what it says only where the change fits.

What is added for a job is the size of the object made from the request, what is subtracted is the
size of the one in the store, which has been through the log.  They agree unless the request has an
explicit empty payload (`size_stored_iff`).
-/

namespace ScheduledDb

open Machine Program FSM Store Option

/-! ## Writes that fail without effect -/

/-- A write that reports an error has not been applied. -/
def Env.FailsCleanly (e : Env) : Prop := e.commit ≠ .ok → e.applies = false

instance (e : Env) : Decidable e.FailsCleanly := inferInstanceAs (Decidable (_ → _))

/-- A write whose two steps come at the given place goes through: the node leads, and Raft accepts. -/
def goesThrough (env : ℕ → Env) (i : ℕ) : Bool :=
  (env i).leader && decide ((env (i + 1)).commit = .ok)

namespace Store

lemma run_propose_of_goesThrough (env : ℕ → Env) (h : goesThrough env 0 = true) (thread : ℕ)
    (cmd : Command) (n : Node) :
    run (handle thread) (propose cmd) env n
      = (n.applyCommand thread (env 1).faults cmd, none, fun i => env (i + 2)) := by
  simp only [goesThrough, Bool.and_eq_true, decide_eq_true_eq] at h
  simp [propose, raftApply, handle, h.1, h.2, Env.applies]

lemma run_propose_of_not {env : ℕ → Env} (henv : ∀ i, (env i).FailsCleanly)
    (h : goesThrough env 0 = false) (thread : ℕ) (cmd : Command) (n : Node) :
    ∃ err, run (handle thread) (propose cmd) env n
      = (n, some err, fun i => env (i + if (env 0).leader then 2 else 1)) := by
  cases hleader : (env 0).leader with
  | false => exact ⟨errNotLeader, by simp [propose, handle, hleader]⟩
  | true =>
    cases hcommit : (env 1).commit with
    | ok => simp [goesThrough, hleader, hcommit] at h
    | error message applied =>
      have hskip : (env 1).applies = false := henv 1 (by simp [hcommit])
      exact ⟨applyFailed message, by simp [propose, raftApply, handle, hleader, hcommit, hskip]⟩

end Store

/-! ## The two recordings -/

namespace LimitManager

/-- One of the two calls. -/
inductive Recording where
  | added
  | removed
  deriving DecidableEq, Repr

namespace Recording

def program (lm : LimitManager) (job : Job) : Recording → Program Act (Option String)
  | added => lm.recordJobAdded job
  | removed => lm.recordJobRemoved job

/-- By how much the job count changes. -/
def count : Recording → ℤ
  | added => 1
  | removed => -1

/-- By how much the memory usage changes. -/
def memory (lm : LimitManager) (job : Job) (r : Recording) : ℤ := r.count * lm.size job

/-- The first command. -/
def memoryCommand (lm : LimitManager) (job : Job) (r : Recording) : Command :=
  { type := .updateMemoryUsage, memoryDelta := r.memory lm job }

/-- The second command. -/
def countCommand (r : Recording) : Command :=
  { type := .updateJobCount, jobCountDelta := r.count }

end Recording

/-- Both counters changed by the given amounts, if there is no error, and none if there is. -/
def Recorded (memory count : ℤ) (f f' : FSM) (result : Option String) : Prop :=
  match result with
  | none => f'.memoryUsage = f.memoryUsage + memory ∧ f'.jobCount = f.jobCount + count
  | some _ => f'.memoryUsage = f.memoryUsage ∧ f'.jobCount = f.jobCount

instance (memory count : ℤ) (f f' : FSM) :
    ∀ result, Decidable (Recorded memory count f f' result)
  | none => inferInstanceAs (Decidable (_ ∧ _))
  | some _ => inferInstanceAs (Decidable (_ ∧ _))

/-- The counters can take the change. -/
structure Fits (memory count : ℤ) (f : FSM) : Prop where
  memoryUsage : 0 ≤ f.memoryUsage + memory ∧ InRange (f.memoryUsage + memory)
  jobCount : 0 ≤ f.jobCount + count ∧ InRange (f.jobCount + count)

instance (memory count : ℤ) (f : FSM) : Decidable (Fits memory count f) :=
  decidable_of_iff ((0 ≤ f.memoryUsage + memory ∧ InRange (f.memoryUsage + memory)) ∧
      0 ≤ f.jobCount + count ∧ InRange (f.jobCount + count))
    ⟨fun h => ⟨h.1, h.2⟩, fun h => ⟨h.1, h.2⟩⟩

lemma addClamped_eq_iff {value delta : ℤ} :
    addClamped value delta = value + delta ↔ 0 ≤ value + delta ∧ InRange (value + delta) := by
  constructor
  · intro h
    rw [← h]
    exact ⟨le_max_left _ _, addClamped_inRange _ _⟩
  · rintro ⟨h0, hrange⟩
    exact addClamped_eq hrange h0

/-- The counters after both commands. -/
lemma recorded_both_iff {memory count : ℤ} {f f' : FSM}
    (hmemory : f'.memoryUsage = addClamped f.memoryUsage memory)
    (hcount : f'.jobCount = addClamped f.jobCount count) :
    Recorded memory count f f' none ↔ Fits memory count f := by
  change f'.memoryUsage = _ ∧ f'.jobCount = _ ↔ _
  rw [hmemory, hcount, addClamped_eq_iff, addClamped_eq_iff]
  exact ⟨fun h => ⟨h.1, h.2⟩, fun h => ⟨h.1, h.2⟩⟩

lemma size_pos (lm : LimitManager) (job : Job) : 0 < lm.size job := by
  unfold size SizeCalculator.calculateSize
  omega

/-! ## What a recording comes to -/

namespace Recording

/-- A write that takes back the first one goes through. -/
def undoes (env : ℕ → Env) : Recording → Bool
  | added => goesThrough env (if (env 2).leader then 4 else 3)
  | removed => false

/-- The memory usage after the first command alone, and after it has been taken back. -/
lemma memory_kept_iff {v size : ℤ} (hv : 0 ≤ v) (hrange : InRange v) (hpos : 0 < size)
    (hsize : InRange size) :
    addClamped v size ≠ v ∧ (addClamped v (-size) = v ↔ v = 0) ∧
      (addClamped (addClamped v size) (-size) = v ↔ InRange (v + size)) := by
  unfold InRange at *
  simp only [addClamped, wrap64]
  omega

/-- What comes after the first write, with its error. -/
def rest (lm : LimitManager) (job : Job) : Recording → Option String → Program Act (Option String)
  | _, some err => pure (some err)
  | added, none => do
    match ← propose added.countCommand with
    | some err => do
      let _ ← propose (removed.memoryCommand lm job)
      pure (some err)
    | none => pure none
  | removed, none => propose removed.countCommand

lemma program_eq (lm : LimitManager) (job : Job) (r : Recording) :
    r.program lm job = propose (r.memoryCommand lm job) >>= r.rest lm job := by
  cases r with
  | added =>
    simp only [memoryCommand, memory, count, one_mul]
    refine congrArg (propose _ >>= ·) (funext fun err => ?_)
    cases err with
    | none =>
      simp only [rest, memoryCommand, memory, count, Int.neg_one_mul]
      rfl
    | some err => rfl
  | removed =>
    simp only [memoryCommand, memory, count, Int.neg_one_mul]
    refine congrArg (propose _ >>= ·) (funext fun err => ?_)
    cases err <;> rfl

end Recording

/-- **What a recording comes to**: an error before anything is changed, success, or an error with the
memory usage changed and perhaps changed back. -/
lemma recording_cases (lm : LimitManager) (job : Job) (r : Recording) (n : Node) (thread : ℕ)
    {env : ℕ → Env} (henv : ∀ i, (env i).FailsCleanly) :
    let outcome := run (handle thread) (r.program lm job) env n
    (goesThrough env 0 = false ∧ outcome.1 = n ∧ outcome.2.1 ≠ none) ∨
      (goesThrough env 0 = true ∧ goesThrough env 2 = true ∧ outcome.2.1 = none ∧
        outcome.1.fsm.memoryUsage = addClamped n.fsm.memoryUsage (r.memory lm job) ∧
        outcome.1.fsm.jobCount = addClamped n.fsm.jobCount r.count) ∨
      (goesThrough env 0 = true ∧ goesThrough env 2 = false ∧ outcome.2.1 ≠ none ∧
        outcome.1.fsm.memoryUsage =
          (let changed := addClamped n.fsm.memoryUsage (r.memory lm job)
          if r.undoes env = true then addClamped changed (-lm.size job) else changed) ∧
        outcome.1.fsm.jobCount = n.fsm.jobCount) := by
  intro outcome
  simp only [outcome, Recording.program_eq, run_bind]
  rcases Bool.eq_false_or_eq_true (goesThrough env 0) with h0 | h0
  swap
  · obtain ⟨err, hrun⟩ := run_propose_of_not henv h0 thread (r.memoryCommand lm job) n
    rw [hrun]
    exact Or.inl ⟨h0, rfl, some_ne_none err⟩
  rw [run_propose_of_goesThrough env h0]
  refine Or.inr ?_
  rcases Bool.eq_false_or_eq_true (goesThrough env 2) with h2 | h2
  · have hrun := run_propose_of_goesThrough (fun i => env (i + 2)) h2 thread r.countCommand
      (n.applyCommand thread (env 1).faults (r.memoryCommand lm job))
    cases r <;> simp only [Recording.rest, run_bind, hrun] <;>
      exact Or.inl ⟨h0, h2, by trivial, rfl, rfl⟩
  · obtain ⟨err, hrun⟩ := run_propose_of_not (fun i => henv (i + 2)) h2 thread r.countCommand
      (n.applyCommand thread (env 1).faults (r.memoryCommand lm job))
    cases r with
    | removed =>
      simp only [Recording.rest, hrun]
      exact Or.inr ⟨h0, h2, some_ne_none err, rfl, rfl⟩
    | added =>
      simp only [Recording.rest, run_bind, hrun]
      refine Or.inr ⟨h0, h2, some_ne_none err, ?_⟩
      have hback : goesThrough (fun i => env (i + (if (env 2).leader then 2 else 1) + 2)) 0
          = Recording.added.undoes env := by
        cases hleader : (env 2).leader <;> simp [goesThrough, Recording.undoes, hleader]
      cases hundoes : Recording.added.undoes env with
      | true =>
        rw [run_propose_of_goesThrough _ (hback.trans hundoes)]
        exact ⟨congrArg (addClamped _) (Int.neg_one_mul _), rfl⟩
      | false =>
        obtain ⟨err', hrun'⟩ := run_propose_of_not (fun i => henv _) (hback.trans hundoes) thread
          (Recording.removed.memoryCommand lm job)
          (n.applyCommand thread (env 1).faults (Recording.added.memoryCommand lm job))
        rw [hrun']
        exact ⟨rfl, rfl⟩

/-- **When recording is all or nothing.**  For exact counters and writes that fail without effect the
outcome is right exactly if the first write does not go through; or both do, and the change fits; or
only the first does, and it is taken back or changed nothing. -/
theorem recorded_iff (lm : LimitManager) (job : Job) (r : Recording) (n : Node) (thread : ℕ)
    (env : ℕ → Env) (hexact : lm.Exact n.fsm) (hrange : InRange n.fsm.memoryUsage)
    (hsize : InRange (lm.size job)) (henv : ∀ i, (env i).FailsCleanly) :
    let outcome := run (handle thread) (r.program lm job) env n
    Recorded (r.memory lm job) r.count n.fsm outcome.1.fsm outcome.2.1 ↔
      goesThrough env 0 = false ∨
      (goesThrough env 2 = true ∧ Fits (r.memory lm job) r.count n.fsm) ∨
      (goesThrough env 2 = false ∧
        (r.undoes env = true ∧ InRange (n.fsm.memoryUsage + lm.size job) ∨
          r = .removed ∧ n.fsm.memoryUsage = 0)) := by
  intro outcome
  have hlow : 0 ≤ n.fsm.memoryUsage := hexact.memoryUsage ▸ lm.total_nonneg n.fsm.jobs
  obtain ⟨hplus, hminus, hundone⟩ :=
    Recording.memory_kept_iff hlow hrange (lm.size_pos job) hsize
  rcases recording_cases lm job r n thread henv with ⟨h0, hsame, herr⟩ |
    ⟨h0, h2, hnone, hmemory, hcount⟩ | ⟨h0, h2, herr, hmemory, hcount⟩
  · obtain ⟨err, herr⟩ := ne_none_iff_exists'.mp herr
    rw [show outcome.2.1 = some err from herr, show outcome.1 = n from hsame]
    exact iff_of_true ⟨rfl, rfl⟩ (Or.inl h0)
  · rw [show outcome.2.1 = none from hnone, recorded_both_iff hmemory hcount]
    simp [h0, h2]
  · obtain ⟨err, herr⟩ := ne_none_iff_exists'.mp herr
    rw [show outcome.2.1 = some err from herr]
    have hkept : Recorded (r.memory lm job) r.count n.fsm outcome.1.fsm (some err) ↔
        outcome.1.fsm.memoryUsage = n.fsm.memoryUsage := and_iff_left hcount
    rw [hkept, hmemory]
    cases r with
    | added =>
      simp only [Recording.memory, Recording.count, one_mul, h0, h2]
      split_ifs with hback
      · simp [hback, hundone]
      · simp [hback, hplus]
    | removed => simp [Recording.memory, Recording.count, Recording.undoes, h0, h2, hminus]

/-- A job, and a node that has stored and counted it. -/
def countedJob : Job := { id := "a", type := .unico, timestamp := some 5 }

def countedNode : Node :=
  { freshNode with
    fsm :=
      { newFSM with
        jobs := Finmap.insert "a" countedJob ∅
        memoryUsage := smallLimits.size countedJob
        jobCount := 1 } }

/-- The leadership is lost after the first of two writes, and comes back for a third one or not. -/
def leadershipLost (back : Bool) (i : ℕ) : Env := { leader := i < 2 || (back && i ≥ 3) }

/-- An addition is taken back, and a removal finds both writes succeeding. -/
theorem recorded_undone :
    Recorded (smallLimits.size countedJob) 1 freshNode.fsm
        (run (handle 0) (smallLimits.recordJobAdded countedJob) (leadershipLost true) freshNode).1.fsm
        (some errNotLeader) ∧
      Recorded (-smallLimits.size countedJob) (-1) countedNode.fsm
        (run (handle 0) (smallLimits.recordJobRemoved countedJob) (fun _ => Env.calm 0)
          countedNode).1.fsm none :=
  ⟨(recorded_iff smallLimits countedJob .added freshNode 0 (leadershipLost true) (by decide)
      (by decide) (by decide) fun _ h => absurd rfl h).mpr (by decide +kernel),
    (recorded_iff smallLimits countedJob .removed countedNode 0 (fun _ => Env.calm 0) (by decide)
      (by decide) (by decide) fun _ h => absurd rfl h).mpr (by decide +kernel)⟩

/-- **Half a recording stays**: the leadership is lost after the memory update, the node answers
with an error, and only the memory usage has changed. -/
theorem half_recorded :
    let added := run (handle 0) (smallLimits.recordJobAdded countedJob) (leadershipLost false)
      freshNode
    let removed := run (handle 0) (smallLimits.recordJobRemoved countedJob) (leadershipLost false)
      countedNode
    (smallLimits.Exact freshNode.fsm ∧ added.2.1 = some errNotLeader ∧
        added.1.fsm.memoryUsage = 193 ∧ added.1.fsm.jobCount = 0 ∧
        ¬ Recorded (smallLimits.size countedJob) 1 freshNode.fsm added.1.fsm added.2.1) ∧
      (smallLimits.Exact countedNode.fsm ∧ removed.2.1 = some errNotLeader ∧
        removed.1.fsm.memoryUsage = 0 ∧ removed.1.fsm.jobCount = 1 ∧
        ¬ Recorded (-smallLimits.size countedJob) (-1) countedNode.fsm removed.1.fsm
          removed.2.1) := by
  decide +kernel

/-! ## What a creation adds, its deletion subtracts -/

lemma payload_of_build {p : Parsers} {r : CreateJobRequest} {id : String} {now : ℤ} {job : Job}
    (h : r.build p id now = .ok job) : job.payload = r.payload := by
  unfold CreateJobRequest.build at h
  split at h
  · split at h <;> cases h
    rfl
  · split at h
    · cases h
    · split at h <;> cases h
      rfl
  · cases h
    rfl

/-- An empty payload is two bytes that do not come out of the log. -/
lemma size_read (lm : LimitManager) (job : Job) :
    lm.size job = lm.size job.read + if job.payload = some Payload.empty then 2 else 0 := by
  by_cases hpayload : job.payload = some Payload.empty
  · have hempty : SizeCalculator.calculatePayloadSize Payload.empty = 2 := by decide
    simp only [size, SizeCalculator.calculateSize, Job.read, Job.wire, hpayload, map_some,
      map_none, getD_some, getD_none, if_true, hempty]
    omega
  · simp [size, SizeCalculator.calculateSize, Job.read, Job.wire, hpayload]

/-- **When a job in the store has the size it was counted with.**  After any log of entries a job is
created from a request; it is in the store, and in every state machine that a snapshot is restored
to, and it has the size it was counted with if and only if the request has no explicit empty
payload. -/
theorem size_stored_iff (lm : LimitManager) (p : Parsers) (r : CreateJobRequest) (id : String)
    (now : ℤ) (job : Job) (hjob : r.build p id now = .ok job)
    (coldStore : Option (Finmap fun _ : ℤ => SlotData)) (log : List (ColdFaults × Json))
    (hlog : ∀ entry ∈ log, IsEntry entry.2) (faults : ColdFaults) (slotNil coldNil : Bool)
    (g : FSM) (slotsNil : ℤ → Bool) (statesNil : String → Bool) :
    let f := log.foldl (fun f entry => f.applyData entry.1 entry.2) (blank coldStore)
    let f' := f.applyData faults
      (Command.encode slotNil coldNil { type := .createJob, job := some job })
    ∃ stored g', f'.getJob job.id = some stored ∧
      g.restoreData (f'.getSnapshot.encode slotsNil statesNil) = some g' ∧
      g'.getJob job.id = some stored ∧
      (lm.size stored = lm.size job ↔ r.payload ≠ some Payload.empty) ∧
      (r.payload = some Payload.empty → lm.size job = lm.size stored + 2) := by
  intro f f'
  set entry := Command.encode slotNil coldNil { type := .createJob, job := some job } with hentry
  have hlegible : f'.getSnapshot.Legible :=
    legible_applyData (legible_log coldStore hlog) faults
      ⟨_, slotNil, coldNil, ⟨by simp, by simp⟩, hentry⟩
  have hstored : f'.getJob job.id = some job.read := by
    have happlied : f' = _ := applyData_encode faults f slotNil coldNil _
    rw [happlied]
    simp [applyCommandInternal, applyCreateJob, getJob, Command.read,
      CommandType.read, CommandType.text,
      CommandType.ofText, Job.read, Job.wire]
  have hsize := lm.size_read job
  rw [payload_of_build hjob] at hsize
  refine ⟨job.read, g.restore f'.getSnapshot, hstored,
    g.restoreData_encode hlegible slotsNil statesNil, ?_, ?_, fun hpayload => ?_⟩
  · have hjobs := (holdsSame_restore hlegible g).jobs
    exact (congrArg (Finmap.lookup job.id) hjobs).trans hstored
  · by_cases hpayload : r.payload = some Payload.empty
    · rw [if_pos hpayload] at hsize
      exact iff_of_false (by omega) (not_not_intro hpayload)
    · rw [if_neg hpayload] at hsize
      exact iff_of_true (by omega) hpayload
  · rwa [if_pos hpayload] at hsize

/-- The job of a request with the given payload. -/
def payloadJob (payload : Option Payload) : Job := { countedJob with payload := payload }

/-- The state machine after its creation. -/
def payloadStored (payload : Option Payload) : FSM :=
  (FSM.blank none).applyData {}
    (Command.encode true true { type := .createJob, job := some (payloadJob payload) })

/-- A job with a payload, and one without, through the log and a snapshot. -/
theorem size_stored_payloads :
    (∃ stored g', (payloadStored (some ⟨"\x7b\"n\":1\x7d"⟩)).getJob "a" = some stored ∧
        newFSM.restoreData ((payloadStored
          (some ⟨"\x7b\"n\":1\x7d"⟩)).getSnapshot.encode (fun _ => true)
          fun _ => true) = some g' ∧
        g'.getJob "a" = some stored ∧
        smallLimits.size stored = smallLimits.size (payloadJob (some ⟨"\x7b\"n\":1\x7d"⟩))) ∧
      ∃ stored g', (payloadStored none).getJob "a" = some stored ∧
        newFSM.restoreData ((payloadStored none).getSnapshot.encode (fun _ => true)
          fun _ => true) = some g' ∧
        g'.getJob "a" = some stored ∧
        smallLimits.size stored = smallLimits.size (payloadJob none) := by
  constructor
  · obtain ⟨stored, g', hget, hrestore, hget', hsize, -⟩ := size_stored_iff smallLimits
      smallHandlers.parsers (dueRequest (some ⟨"\x7b\"n\":1\x7d"⟩)) "a" 0
        (payloadJob (some ⟨"\x7b\"n\":1\x7d"⟩)) (by rfl)
      none [] nofun {} true true newFSM (fun _ => true) fun _ => true
    exact ⟨stored, g', hget, hrestore, hget', hsize.mpr (by decide)⟩
  · obtain ⟨stored, g', hget, hrestore, hget', hsize, -⟩ := size_stored_iff smallLimits
      smallHandlers.parsers (dueRequest none) "a" 0 (payloadJob none) (by rfl)
      none [] nofun {} true true newFSM (fun _ => true) fun _ => true
    exact ⟨stored, g', hget, hrestore, hget', hsize.mpr (by decide)⟩

/-- **An explicit empty payload is counted, but not stored**: 195 bytes are added, and 193 will be
subtracted. -/
theorem empty_payload_shrinks :
    (dueRequest (some Payload.empty)).build smallHandlers.parsers "a" 0
        = .ok (payloadJob (some Payload.empty)) ∧
      smallLimits.size (payloadJob (some Payload.empty)) = 195 ∧
      ((payloadStored (some Payload.empty)).getJob "a").map smallLimits.size = some 193 := by
  decide +kernel

end LimitManager

end ScheduledDb
