import Mathlib.Algebra.Order.BigOperators.Group.Multiset
import ScheduledDb.Api.JobHandlers
import ScheduledDb.Slots.Passes

/-!
# Do the capacity counters count?

The counters are changed by the handlers that create and delete jobs, not by the commands that do.
The worker deletes the jobs it has executed without a word to the counters, so that every executed
`unico` job is counted for ever (`counters_leak`).  And a job with an empty payload is counted with
two bytes that the log does not deliver.

`counters_exact` says when the counters are right between operations: when the worker finds due only
jobs that it creates anew, and no request has an explicit empty payload.
-/

namespace ScheduledDb

open Machine Program PersistentSlotQueue FSM Finmap

/-! ## What every state of the machine satisfies -/

/-- Jobs are as the log delivers them, under their own ids; counters are `int64`. -/
structure FSM.Tidy (f : FSM) : Prop where
  jobs : ∀ id job, f.jobs.lookup id = some job → job.id = id ∧ job.wire = job
  memoryUsage : InRange f.memoryUsage
  jobCount : InRange f.jobCount

namespace FSM

variable {f f' : FSM}

lemma SameJobs.tidy (h : f.SameJobs f') (ht : f.Tidy) : f'.Tidy where
  jobs := by
    rw [h.jobs]
    exact ht.jobs
  memoryUsage := by
    rw [h.memoryUsage]
    exact ht.memoryUsage
  jobCount := by
    rw [h.jobCount]
    exact ht.jobCount

lemma addClamped_inRange (value delta : ℤ) : InRange (addClamped value delta) := by
  obtain ⟨hlo, hhi⟩ := wrap64_inRange (value + delta)
  unfold InRange addClamped
  omega

/-- **Every command keeps the state tidy.** -/
lemma Tidy.apply (h : f.Tidy) (faults : ColdFaults) (cmd : Command) :
    (f.apply faults cmd).1.Tidy := by
  have hof := f.effectOf faults cmd.wire
  rw [apply_fst]
  cases heffect : f.effect faults cmd.wire with
  | putJob job =>
    rw [heffect] at hof
    refine { h with jobs := fun id job' hjob' => ?_ }
    cases hof with
    | putJob _ harg =>
      simp only [Command.wire, Option.map_eq_some_iff] at harg
      obtain ⟨given, _, rfl⟩ := harg
      simp only [Effect.act, lookup_insert_ite] at hjob'
      split_ifs at hjob' with hid
      · obtain rfl := Option.some.inj hjob'
        exact ⟨hid.symm, given.wire_wire⟩
      · exact h.jobs id job' hjob'
  | dropJob id =>
    refine { h with jobs := fun id' job' hjob' => ?_ }
    simp only [Effect.act, lookup_erase_ite] at hjob'
    split_ifs at hjob'
    exact h.jobs id' job' hjob'
  | setMemoryUsage m =>
    rw [heffect] at hof
    cases hof with
    | setMemoryUsage _ => exact { h with memoryUsage := addClamped_inRange _ _ }
  | setJobCount c =>
    rw [heffect] at hof
    cases hof with
    | setJobCount _ => exact { h with jobCount := addClamped_inRange _ _ }
  | _ => exact { h with }

lemma newFSM_tidy : newFSM.Tidy where
  jobs := fun id job h => by simp [newFSM] at h
  memoryUsage := by decide
  jobCount := by decide

end FSM

/-! ## Exact counters -/

/-- The counters are what they should count. -/
structure LimitManager.Exact (lm : LimitManager) (f : FSM) : Prop where
  jobCount : f.jobCount = f.jobs.keys.card
  memoryUsage : f.memoryUsage = f.jobs.total lm.size

lemma LimitManager.total_nonneg (lm : LimitManager) (m : Finmap fun _ : String => Job) :
    0 ≤ m.total lm.size := by
  refine Multiset.sum_nonneg fun x hx => ?_
  obtain ⟨entry, _, rfl⟩ := Multiset.mem_map.mp hx
  exact Int.natCast_nonneg _

instance (lm : LimitManager) (f : FSM) : Decidable (lm.Exact f) :=
  decidable_of_iff (f.jobCount = f.jobs.keys.card ∧ f.memoryUsage = f.jobs.total lm.size)
    ⟨fun h => ⟨h.1, h.2⟩, fun h => ⟨h.jobCount, h.memoryUsage⟩⟩

namespace LimitManager.Exact

variable {lm : LimitManager} {f f' : FSM}

lemma of_sameJobs (h : lm.Exact f) (hsame : f.SameJobs f') : lm.Exact f' where
  jobCount := by rw [hsame.jobCount, hsame.jobs, h.jobCount]
  memoryUsage := by rw [hsame.memoryUsage, hsame.jobs, h.memoryUsage]

/-- A new job, and both counters told. -/
lemma added {job : Job} (h : lm.Exact f) (hroom : f.jobCount < lm.jobCounter.limit)
    (hfresh : f.jobs.lookup job.id = none) (hfits : InRange (f.memoryUsage + lm.size job))
    (hjobs : f'.jobs = f.jobs.insert job.id job)
    (hmemory : f'.memoryUsage = addClamped f.memoryUsage (lm.size job))
    (hcount : f'.jobCount = addClamped f.jobCount 1) : lm.Exact f' := by
  have hlimit := lm.jobCounter.inRange
  have htotal := lm.total_nonneg f.jobs
  have hsize : 0 ≤ lm.size job := Int.natCast_nonneg _
  have hm := h.memoryUsage
  have hc := h.jobCount
  unfold InRange at hlimit
  constructor
  · rw [hcount, hjobs, card_keys_insert job hfresh,
      addClamped_eq ⟨by omega, by omega⟩ (by omega), hc]
    omega
  · rw [hmemory, hjobs, total_insert lm.size job hfresh,
      addClamped_eq hfits (by omega), hm]

/-- A job less, and both counters told. -/
lemma removed {id : String} {job : Job} (h : lm.Exact f) (htidy : f.Tidy)
    (hjob : f.jobs.lookup id = some job) (hjobs : f'.jobs = f.jobs.erase id)
    (hmemory : f'.memoryUsage = addClamped f.memoryUsage (-lm.size job))
    (hcount : f'.jobCount = addClamped f.jobCount (-1)) : lm.Exact f' := by
  have hm := h.memoryUsage
  have hc := h.jobCount
  have hmrange := htidy.memoryUsage
  have hcrange := htidy.jobCount
  have htotal := lm.total_nonneg (f.jobs.erase id)
  have hsize : 0 ≤ lm.size job := Int.natCast_nonneg _
  rw [total_erase lm.size hjob] at hm
  rw [card_keys_erase hjob] at hc
  unfold InRange at hmrange hcrange
  constructor
  · rw [hcount, hjobs, addClamped_eq ⟨by omega, by omega⟩ (by omega)]
    omega
  · rw [hmemory, hjobs, addClamped_eq ⟨by omega, by omega⟩ (by omega)]
    omega

end LimitManager.Exact

variable {job job' : Job} {α : Type} {lm : LimitManager}

/-- A payload that is not empty comes through the log. -/
lemma Job.wire_eq_self (h : job.payload ≠ some Payload.empty) : job.wire = job := by
  simp [Job.wire, h]

/-! ## Creating a job -/

/-- What a job has to be like when it is created: a fresh id, no explicit empty payload, a size that
the memory counter has room for. -/
def Command.Countable (lm : LimitManager) (f : FSM) (cmd : Command) : Prop :=
  cmd.type = .createJob → ∀ job ∈ cmd.job, f.jobs.lookup job.id = none ∧
    job.payload ≠ some Payload.empty ∧ InRange (f.memoryUsage + lm.size job)

instance (lm : LimitManager) (f : FSM) (cmd : Command) : Decidable (cmd.Countable lm f) :=
  inferInstanceAs (Decidable (_ → _))

/-- The condition on the steps of a create request. -/
def PostGuard (lm : LimitManager) (β : Type) (a : Act β) (e : Env) (n : Node) : Prop :=
  e.Stable ∧ ∀ cmd ∈ a.command, cmd.Countable lm n.fsm

instance (lm : LimitManager) (β : Type) (a : Act β) (e : Env) (n : Node) :
    Decidable (PostGuard lm β a e n) :=
  inferInstanceAs (Decidable (_ ∧ _))

/-- A stable leader, nothing else. -/
def StableGuard (β : Type) (_ : Act β) (e : Env) (_ : Node) : Prop := e.Stable

instance (β : Type) (a : Act β) (e : Env) (n : Node) : Decidable (StableGuard β a e n) :=
  inferInstanceAs (Decidable e.Stable)

namespace LimitManager

variable {lm : LimitManager} {thread : ℕ} {n : Node}
  {guard : ∀ β : Type, Act β → Env → Node → Prop} {job : Job} {Q : Option String → Node → Prop}

/-- A job passes the check only if the number of jobs is below the limit. -/
lemma wpWith_checkCapacity {Q : Option CapacityError → Node → Prop} (hfull : ∀ err, Q (some err) n)
    (hfree : n.fsm.jobCount < lm.jobCounter.limit → Q none n) :
    wpWith (demonic (handle thread) guard) (lm.checkCapacity job) Q n := by
  simp only [checkCapacity, MemoryTracker.checkCapacity, MemoryTracker.getUsage,
    JobCounter.checkCapacity, perform_bind, wpWith_bind, wpWith_step]
  intro e _
  refine wpWith_ite.mpr ⟨fun _ => hfull _, fun _ e' _ => ?_⟩
  exact wpWith_ite.mpr ⟨fun _ => hfull _, fun hfew => hfree (by simpa [handle] using hfew)⟩

variable (hstable : ∀ {β : Type} (a : Act β) (e : Env) (n : Node), guard β a e n → e.Stable)

include hstable

/-- Counting a job on a stable leader adds to both counters. -/
lemma wpWith_recordJobAdded (h : ∀ n', n'.fsm = { n.fsm with
        memoryUsage := addClamped n.fsm.memoryUsage (lm.size job)
        jobCount := addClamped n.fsm.jobCount 1 } → Q none n') :
    wpWith (demonic (handle thread) guard) (lm.recordJobAdded job) Q n :=
  wpWith_bind.mpr (Store.wpWith_propose hstable fun _ _ =>
    wpWith_bind.mpr (Store.wpWith_propose hstable fun _ _ => h _ rfl))

lemma wpWith_recordJobRemoved (h : ∀ n', n'.fsm = { n.fsm with
        memoryUsage := addClamped n.fsm.memoryUsage (-lm.size job)
        jobCount := addClamped n.fsm.jobCount (-1) } → Q none n') :
    wpWith (demonic (handle thread) guard) (lm.recordJobRemoved job) Q n :=
  wpWith_bind.mpr (Store.wpWith_propose hstable fun _ _ =>
    Store.wpWith_propose hstable fun _ _ => h _ rfl)

end LimitManager

namespace Handlers

variable {h : Handlers} {lm : LimitManager} {thread : ℕ} {n : Node}

/-- **Creating a job keeps the counters exact.** -/
lemma wpWith_store (hlm : h.limitManager = some lm) (hexact : lm.Exact n.fsm)
    (hroom : n.fsm.jobCount < lm.jobCounter.limit) (job : Job) :
    wpWith (demonic (handle thread) (PostGuard lm)) (h.store job)
      (fun _ n' => lm.Exact n'.fsm) n := by
  refine wpWith_bind.mpr (wpWith_createJob (fun _ _ _ hg => hg.1) fun e n1 hguard hsame => ?_)
  obtain ⟨hfresh, hpayload, hfits⟩ := hguard.2 _ rfl rfl job rfl
  rw [apply_createJob, Job.wire_eq_self hpayload] at hsame
  simp only [countAdded, hlm, wpWith_bind]
  refine LimitManager.wpWith_recordJobAdded (fun _ _ _ hg => hg.1) fun n2 hn2 => ?_
  refine hexact.added hroom hfresh hfits ?_ ?_ ?_
  · rw [hn2]
    exact hsame.jobs
  · rw [hn2, ← hsame.memoryUsage]
  · rw [hn2, ← hsame.jobCount]

lemma wpWith_createJob (hlm : h.limitManager = some lm) (hexact : lm.Exact n.fsm)
    (body : Option CreateJobRequest) :
    wpWith (demonic (handle thread) (PostGuard lm)) (h.createJob body)
      (fun _ n' => lm.Exact n'.fsm) n := by
  refine wpWith_createJob_of h body (R := fun n => lm.Exact n.fsm) (fun a Q n ha hn hQ e _ => ?_)
    (fun _ _ hn => hn) (fun job n hn => ?_) hexact
  · exact hQ _ _ (handle_keeps thread hn fun cmd hcmd =>
      hn.of_sameJobs (sameJobs_apply ((Store.Issues.of_quiet ha).of_command hcmd) n.fsm e.faults))
  · simp only [checkCapacity, hlm]
    exact LimitManager.wpWith_checkCapacity (fun _ => hn) fun hroom => wpWith_store hlm hn hroom job

/-! ## Deleting a job -/

lemma wpWith_deleteJob (hlm : h.limitManager = some lm) (hexact : lm.Exact n.fsm)
    (htidy : n.fsm.Tidy) (id : String) :
    wpWith (demonic (handle thread) StableGuard) (h.deleteJob id)
      (fun _ n' => lm.Exact n'.fsm) n := by
  simp only [deleteJob, perform_bind, wpWith_step]
  intro e _
  refine wpWith_ite.mpr ⟨fun _ => wpWith_ite.mpr ⟨fun _ => hexact, fun hid e' _ => ?_⟩,
    fun _ => hexact⟩
  simp only [handle, getJob]
  cases hjob : n.fsm.jobs.lookup id with
  | none => exact hexact
  | some job =>
    refine wpWith_bind.mpr (PersistentSlotQueue.wpWith_deleteJob (fun _ _ _ hg => hg)
      fun e n1 _ hsame => ?_)
    rw [apply_deleteJob _ _ hid] at hsame
    simp only [countRemoved, hlm, wpWith_bind]
    refine LimitManager.wpWith_recordJobRemoved (fun _ _ _ hg => hg) fun n2 hn2 => ?_
    refine hexact.removed htidy hjob ?_ ?_ ?_
    · rw [hn2]
      exact hsame.jobs
    · rw [hn2, ← hsame.memoryUsage]
    · rw [hn2, ← hsame.jobCount]

end Handlers

/-! ## A pass of the worker -/

/-- The same job at another time. -/
def Job.Again (job job' : Job) : Prop := ∃ createdAt, job' = { job with createdAt := createdAt }

lemma Job.Again.refl (job : Job) : job.Again job := ⟨job.createdAt, rfl⟩

lemma Job.Again.trans {job'' : Job} (h : job.Again job') (h' : job'.Again job'') :
    job.Again job'' := by
  obtain ⟨c, rfl⟩ := h
  obtain ⟨c', rfl⟩ := h'
  exact ⟨c', rfl⟩

lemma LimitManager.size_again (lm : LimitManager) (h : job.Again job') :
    lm.size job' = lm.size job := by
  obtain ⟨c, rfl⟩ := h
  rfl

lemma Job.Again.wire (h : job.Again job') (hjob : job.wire = job) : job'.wire = job' := by
  obtain ⟨c, rfl⟩ := h
  have hpayload := congrArg Job.payload hjob
  simp only [Job.wire] at hpayload ⊢
  rw [hpayload]

/-- Every job is still there, perhaps at another time. -/
structure FSM.Renewed (f f' : FSM) : Prop where
  jobs : ∀ id, Option.Rel Job.Again (f.jobs.lookup id) (f'.jobs.lookup id)
  memoryUsage : f'.memoryUsage = f.memoryUsage
  jobCount : f'.jobCount = f.jobCount

lemma FSM.Renewed.refl (f : FSM) : f.Renewed f where
  jobs := fun id => by
    cases f.jobs.lookup id with
    | none => exact .none
    | some job => exact .some (Job.Again.refl job)
  memoryUsage := rfl
  jobCount := rfl

lemma map_eq_of_rel {β : Type} {r : α → α → Prop} {g : α → β} {a b : Option α}
    (h : Option.Rel r a b) (hg : ∀ x y, r x y → g y = g x) : b.map g = a.map g := by
  cases h with
  | none => rfl
  | some hxy => exact congrArg some (hg _ _ hxy)

/-- Times do not count. -/
lemma LimitManager.Exact.of_renewed {f f' : FSM} (h : lm.Exact f) (hrenewed : f.Renewed f') :
    lm.Exact f' where
  jobCount := by
    rw [hrenewed.jobCount, h.jobCount, card_keys, card_keys]
    congr 1
    exact (total_congr _ fun id => map_eq_of_rel (hrenewed.jobs id) fun _ _ _ => rfl).symm
  memoryUsage := by
    rw [hrenewed.memoryUsage, h.memoryUsage]
    exact (total_congr _ fun id => map_eq_of_rel (hrenewed.jobs id)
      fun _ _ h => lm.size_again h).symm

namespace Worker

variable (w : Worker) (now : ℤ)

/-- The job is a recurring one and has a next time. -/
def Recurs (job : Job) : Prop := job.type = .recurrente ∧ 0 < w.calculateNextExecution job now

/-- Every due job recurs, so that a pass deletes none for good. -/
def NothingEnds (f : FSM) : Prop :=
  ∀ id job, f.jobs.lookup id = some job → shouldExecuteJob job now = true → w.Recurs now job

instance (job : Job) : Decidable (w.Recurs now job) := inferInstanceAs (Decidable (_ ∧ _))

lemma nothingEnds_iff (f : FSM) :
    (∀ id ∈ f.jobs.keys, ∀ job ∈ f.jobs.lookup id, shouldExecuteJob job now = true →
      w.Recurs now job) ↔ w.NothingEnds now f := by
  refine ⟨fun h id job hjob => h id ?_ job hjob, fun h id _ job hjob => h id job hjob⟩
  exact mem_keys.mpr (mem_of_lookup_eq_some hjob)

instance (f : FSM) : Decidable (w.NothingEnds now f) := decidable_of_iff _ (w.nothingEnds_iff now f)

/-- What a pass that began in `f0` keeps between two slots. -/
structure PassKept (f0 f : FSM) : Prop where
  renewed : f0.Renewed f
  tidy : f.Tidy
  nothingEnds : w.NothingEnds now f

/-- What the loop over the jobs of a slot keeps: every job to be removed is one to be rescheduled,
and these are jobs of the store at another time. -/
structure RoundOf (f1 : FSM) (round : Round) (n : Node) : Prop where
  same : f1.SameJobs n.fsm
  removed : ∀ id ∈ round.jobsToRemove, ∃ job ∈ round.jobsToReschedule, job.id = id
  rescheduled : ∀ job ∈ round.jobsToReschedule, job.id ∈ round.jobsToRemove ∧
    w.Recurs now job ∧ ∃ old, f1.jobs.lookup job.id = some old ∧ old.Again job

variable {w now} {thread : ℕ} {f0 f1 : FSM} {round : Round} {n : Node} {ids : List String}

/-- All jobs of a slot that are due recur. -/
lemma roundOf_noted (h1 : w.PassKept now f0 f1) {jobs : List Job}
    (hjobs : ∀ job ∈ jobs, ∃ id, f1.jobs.lookup id = some job)
    (hround : w.Noted now (due now jobs) {} round) (hsame : f1.SameJobs n.fsm) :
    w.RoundOf now f1 round n := by
  have hremoved : round.jobsToRemove = (due now jobs).map Job.id := hround.removed
  have hrescheduled : round.jobsToReschedule = (due now jobs).filterMap (w.renewed now) :=
    hround.rescheduled
  have hdue : ∀ job ∈ due now jobs, f1.jobs.lookup job.id = some job ∧ w.Recurs now job := by
    intro job hjob
    obtain ⟨hjob, hdue⟩ := List.mem_filter.mp hjob
    obtain ⟨id, hid⟩ := hjobs job hjob
    obtain ⟨rfl, -⟩ := h1.tidy.jobs id job hid
    exact ⟨hid, h1.nothingEnds _ job hid hdue⟩
  refine ⟨hsame, fun id hid => ?_, fun job' hjob' => ?_⟩
  · rw [hremoved] at hid
    obtain ⟨job, hjob, rfl⟩ := List.mem_map.mp hid
    rw [hrescheduled]
    exact ⟨_, List.mem_filterMap.mpr ⟨job, hjob, if_pos (hdue job hjob).2⟩, rfl⟩
  · rw [hrescheduled] at hjob'
    obtain ⟨job, hjob, hrenewed⟩ := List.mem_filterMap.mp hjob'
    obtain ⟨-, -, rfl⟩ := renewed_eq_some hrenewed
    obtain ⟨hstored, hrecurs⟩ := hdue job hjob
    rw [hremoved]
    exact ⟨List.mem_map.mpr ⟨job, hjob, rfl⟩, hrecurs, job, hstored, _, rfl⟩

/-- While jobs are removed and rescheduled: the others are as they were. -/
structure OthersKept (f1 : FSM) (ids : List String) (n : Node) : Prop where
  others : ∀ id, id ∉ ids → n.fsm.jobs.lookup id = f1.jobs.lookup id
  tidy : n.fsm.Tidy
  memoryUsage : n.fsm.memoryUsage = f1.memoryUsage
  jobCount : n.fsm.jobCount = f1.jobCount

lemma kept_removeExecuted {id : String} (hid : id ∈ ids) (h : OthersKept f1 ids n) :
    wpWith (demonic (handle thread) StableGuard) (removeExecuted id)
      (fun _ => OthersKept f1 ids) n := by
  refine wpWith_bind.mpr (Store.wpWith_ifLeader (fun _ _ _ hg => hg)
    (wpWith_deleteJob (fun _ _ _ hg => hg) fun e n1 _ h1 => ?_))
  refine wpWith_mono demonic_mono (Store.wpWith_quiet
    (Store.quiet_mono (all_removeJob id) fun _ hcmd => hcmd.leavesJobs) n1) fun _ n2 h2 => ?_
  have hsame := h1.trans h2
  have htidy := hsame.tidy (h.tidy.apply e.faults _)
  by_cases hempty : id = ""
  · subst hempty
    rw [apply_deleteJob_empty] at hsame
    exact ⟨by rw [hsame.jobs]; exact h.others, htidy, hsame.memoryUsage.trans h.memoryUsage,
      hsame.jobCount.trans h.jobCount⟩
  · rw [apply_deleteJob _ _ hempty] at hsame
    refine ⟨fun id' hid' => ?_, htidy, hsame.memoryUsage.trans h.memoryUsage,
      hsame.jobCount.trans h.jobCount⟩
    have hne : id' ≠ id := fun heq => hid' (heq ▸ hid)
    rw [hsame.jobs, lookup_erase_ne hne]
    exact h.others id' hid'

variable (w now f1) in
/-- A job is back in the store, at another time. -/
def Back (job : Job) (n : Node) : Prop :=
  ∃ found, n.fsm.jobs.lookup job.id = some found ∧ w.Recurs now found ∧
    ∃ old, f1.jobs.lookup job.id = some old ∧ old.Again found

lemma kept_reschedule (htidy1 : f1.Tidy) {job : Job} (hid : job.id ∈ ids)
    (hrecurs : w.Recurs now job) {old : Job} (hold : f1.jobs.lookup job.id = some old)
    (hagain : old.Again job) (h : OthersKept f1 ids n) :
    wpWith (demonic (handle thread) StableGuard) (reschedule job)
      (fun _ n' => OthersKept f1 ids n' ∧ w.Back now f1 job n' ∧
        ∀ other, w.Back now f1 other n → w.Back now f1 other n') n := by
  refine Store.wpWith_ifLeader (fun _ _ _ hg => hg)
    (wpWith_createJob (fun _ _ _ hg => hg) fun e n1 _ hsame => ?_)
  have htidy := hsame.tidy (h.tidy.apply e.faults _)
  rw [apply_createJob, hagain.wire (htidy1.jobs _ old hold).2] at hsame
  have hlookup : ∀ id, n1.fsm.jobs.lookup id
      = if id = job.id then some job else n.fsm.jobs.lookup id := by
    intro id
    rw [hsame.jobs, lookup_insert_ite]
  refine ⟨⟨fun id hid' => ?_, htidy, hsame.memoryUsage.trans h.memoryUsage,
    hsame.jobCount.trans h.jobCount⟩, ⟨job, by rw [hlookup, if_pos rfl], hrecurs, old, hold, hagain⟩,
    fun other hback => ?_⟩
  · have hne : id ≠ job.id := fun heq => hid' (heq ▸ hid)
    rw [hlookup, if_neg hne]
    exact h.others id hid'
  · by_cases heq : other.id = job.id
    · exact ⟨job, by rw [hlookup, if_pos heq], hrecurs, old, by rw [heq]; exact hold, hagain⟩
    · obtain ⟨found, hfound, hrest⟩ := hback
      exact ⟨found, by rw [hlookup, if_neg heq]; exact hfound, hrest⟩

/-- When all jobs are back, the slot is done. -/
lemma passKept_of_back (h1 : w.PassKept now f0 f1)
    (hremoved : ∀ id ∈ round.jobsToRemove, ∃ job ∈ round.jobsToReschedule, job.id = id)
    (hothers : OthersKept f1 round.jobsToRemove n)
    (hback : ∀ job ∈ round.jobsToReschedule, w.Back now f1 job n) : w.PassKept now f0 n.fsm where
  renewed :=
    { jobs := by
        intro id
        by_cases hid : id ∈ round.jobsToRemove
        · obtain ⟨job, hjob, rfl⟩ := hremoved id hid
          obtain ⟨found, hfound, _, old, hold, hagain⟩ := hback job hjob
          have hrel := h1.renewed.jobs job.id
          rw [hold] at hrel
          rw [hfound]
          generalize f0.jobs.lookup job.id = first at hrel ⊢
          cases hrel with
          | some hfirst => exact .some (hfirst.trans hagain)
        · rw [hothers.others id hid]
          exact h1.renewed.jobs id
      memoryUsage := hothers.memoryUsage.trans h1.renewed.memoryUsage
      jobCount := hothers.jobCount.trans h1.renewed.jobCount }
  tidy := hothers.tidy
  nothingEnds := by
    intro id job hjob hdue
    by_cases hid : id ∈ round.jobsToRemove
    · obtain ⟨job', hjob', rfl⟩ := hremoved id hid
      obtain ⟨found, hfound, hrecurs, _⟩ := hback job' hjob'
      obtain rfl := Option.some.inj (hfound.symm.trans hjob)
      exact hrecurs
    · rw [hothers.others id hid] at hjob
      exact h1.nothingEnds id job hjob hdue

lemma kept_slot (slot : Slot) (h : w.PassKept now f0 n.fsm) (hjobs : FromStore n slot.jobs) :
    wpWith (demonic (handle thread) StableGuard) (w.processSlot now slot)
      (fun _ n' => w.PassKept now f0 n'.fsm) n := by
  refine wpWith_seq demonic_mono
    (w.wpWith_processJobs_sameJobs now slot.jobs n) ?_
  rintro round n1 ⟨hsame, hnoted, -⟩
  have h1 : w.RoundOf now n.fsm round n1 := roundOf_noted h hjobs hnoted hsame
  have hstart : OthersKept n.fsm round.jobsToRemove n1 :=
    ⟨fun id _ => by rw [h1.same.jobs], h1.same.tidy h.tidy, h1.same.memoryUsage, h1.same.jobCount⟩
  refine wpWith_seq demonic_mono (wpWith_forEach demonic_mono round.jobsToRemove
    (fun id hid n' hn' => kept_removeExecuted hid hn') hstart) fun _ n2 h2 => ?_
  refine wpWith_seq demonic_mono (wpWith_forEach_each demonic_mono
    round.jobsToReschedule (fun job hjob n' hn' => ?_) h2) fun _ n3 h3 =>
      passKept_of_back h h1.removed h3.1 h3.2.1
  obtain ⟨hid, hrecurs, old, hold, hagain⟩ := h1.rescheduled job hjob
  exact kept_reschedule h.tidy hid hrecurs hold hagain hn'

lemma kept_loop (left : ℕ) (h : w.PassKept now f0 n.fsm) :
    wpWith (demonic (handle thread) StableGuard) (w.processLoop now left)
      (fun _ n' => w.PassKept now f0 n'.fsm) n := by
  refine wpWith_processLoop demonic_mono (I := fun n => w.PassKept now f0 n.fsm)
    (J := fun slot n => FromStore n slot.jobs) (fun n h => ?_)
    (fun slot n h hjobs => kept_slot slot h hjobs) left h
  refine wpWith_mono demonic_mono (wpWith_getNextSlot n) ?_
  rintro slot n1 ⟨hsame, hjobs⟩
  refine ⟨?_, fun s hs => (hjobs s hs).fromStore⟩
  exact
    { renewed :=
        { jobs := by
            rw [hsame.jobs]
            exact h.renewed.jobs
          memoryUsage := hsame.memoryUsage.trans h.renewed.memoryUsage
          jobCount := hsame.jobCount.trans h.renewed.jobCount }
      tidy := hsame.tidy h.tidy
      nothingEnds := by
        unfold NothingEnds
        rw [hsame.jobs]
        exact h.nothingEnds }

end Worker

/-! ## Sessions -/

/-- What happens to a leader, one after the other. -/
inductive Operation where
  | post (body : Option CreateJobRequest)
  | delete (id : String)
  | pass

namespace Operation

def program (h : Handlers) (w : Worker) : Operation → Program Act Unit
  | post body => h.createJob body >>= fun _ => pure ()
  | delete id => h.deleteJob id >>= fun _ => pure ()
  | pass => w.processSlots

/-- When an operation keeps the counters exact: always on a stable leader, except that a create
request must be as `PostGuard` asks, and that for a pass every due job recurs. -/
def Accountable (h : Handlers) (lm : LimitManager) (w : Worker) (op : Operation) (env : ℕ → Env)
    (n : Node) : Prop :=
  match op with
  | post _ => Meets (handle 0) (PostGuard lm) (op.program h w) env n
  | delete _ => Meets (handle 0) StableGuard (op.program h w) env n
  | pass => Meets (handle 0) StableGuard (op.program h w) env n ∧
      w.NothingEnds (env 0).now n.fsm

instance (h : Handlers) (lm : LimitManager) (w : Worker) (op : Operation) (env : ℕ → Env)
    (n : Node) : Decidable (op.Accountable h lm w env n) := by
  cases op with
  | post body | delete id => exact inferInstanceAs (Decidable (Meets _ _ _ _ _))
  | pass => exact inferInstanceAs (Decidable (Meets _ _ _ _ _ ∧ _))

end Operation

lemma wpWith_tidy {thread : ℕ} {guard : ∀ β : Type, Act β → Env → Node → Prop} (p : Program Act α)
    {n : Node} (h : n.fsm.Tidy) :
    wpWith (demonic (handle thread) guard) p (fun _ n' => n'.fsm.Tidy) n :=
  all_true.invariant (fun _ e _ _ _ hn' => handle_keeps thread hn' fun cmd _ =>
    hn'.apply e.faults cmd) h

lemma exact_operation {h : Handlers} (hlm : h.limitManager = some lm) (w : Worker) (op : Operation)
    (env : ℕ → Env) (n : Node) (hop : op.Accountable h lm w env n)
    (hexact : lm.Exact n.fsm ∧ n.fsm.Tidy) :
    lm.Exact (Program.run (handle 0) (op.program h w) env n).1.fsm ∧
      (Program.run (handle 0) (op.program h w) env n).1.fsm.Tidy := by
  have hunit : ∀ {guard : ∀ β : Type, Act β → Env → Node → Prop} {p : Program Act HttpResponse},
      wpWith (demonic (handle 0) guard) p (fun _ n' => lm.Exact n'.fsm) n →
      wpWith (demonic (handle 0) guard) (p >>= fun _ => pure ()) (fun _ n' => lm.Exact n'.fsm) n :=
    fun hp => wpWith_bind.mpr hp
  cases op with
  | post body =>
    exact ⟨wpWith_run (hunit (Handlers.wpWith_createJob hlm hexact.1 body)) hop,
      wpWith_run (wpWith_tidy _ hexact.2) hop⟩
  | delete id =>
    exact ⟨wpWith_run (hunit (Handlers.wpWith_deleteJob hlm hexact.1 hexact.2 id)) hop,
      wpWith_run (wpWith_tidy _ hexact.2) hop⟩
  | pass =>
    obtain ⟨hmeets, hends⟩ := hop
    refine ⟨?_, wpWith_run (wpWith_tidy _ hexact.2) hmeets⟩
    have hkept := wpWith_run (Worker.kept_loop 10
      ⟨Renewed.refl n.fsm, hexact.2, hends⟩) hmeets.2
    exact hexact.1.of_renewed hkept.renewed

/-- **The counters count**, after every session of operations that are all accountable. -/
theorem counters_exact (h : Handlers) (lm : LimitManager) (hlm : h.limitManager = some lm)
    (w : Worker) (ops : List Operation) (n : Node) (env : ℕ → Env) (hexact : lm.Exact n.fsm)
    (htidy : n.fsm.Tidy)
    (hops : Each (handle 0) (Operation.Accountable h lm w) (Operation.program h w) ops env n) :
    lm.Exact (Program.run (handle 0) (forEach ops (Operation.program h w)) env n).1.fsm :=
  (hops.run (I := fun n => lm.Exact n.fsm ∧ n.fsm.Tidy)
    (fun op env n hop hn => exact_operation hlm w op env n hop hn) ⟨hexact, htidy⟩).1

/-- Limits of 10 jobs and 10000 bytes. -/
def smallLimits : LimitManager where
  memoryTracker := ⟨10000, by decide⟩
  jobCounter := ⟨10, by decide⟩
  sizeCalculator := newSizeCalculator

/-- Handlers with these limits, which know times as numbers only and take every cron expression. -/
def smallHandlers : Handlers where
  parsers := ⟨fun _ _ => none, fun _ => none⟩
  limitManager := some smallLimits
  sanitizeError := fun err => err

/-- The first steps are taken at second 0, the others at second 7. -/
def laterOn (steps i : ℕ) : Env := Env.calm (if i < steps then 0 else 7)

/-- A recurring job is created, executed in a pass, and deleted. -/
theorem counters_exact_recurring :
    smallLimits.Exact (Program.run (handle 0)
      (forEach [.post (some { id := "a", type := .recurrente, cronExpr := "* * * * *" }), .pass,
        .delete "a"] (Operation.program smallHandlers everyMinute)) (laterOn 20) freshNode).1.fsm :=
  counters_exact smallHandlers smallLimits rfl everyMinute _ freshNode (laterOn 20)
    (by decide +kernel) (newFSM_tidy) (by decide +kernel)

/-- A request for a job at second 5. -/
def dueRequest (payload : Option Payload) : CreateJobRequest :=
  { id := "a", type := .unico, timestamp := "5", payload := payload }

/-- **Executed jobs are counted for ever**, and an explicit empty payload is counted as two bytes
that are not there. -/
theorem counters_leak :
    ¬ smallLimits.Exact (Program.run (handle 0)
        (forEach [.post (some (dueRequest none)), .pass]
          (Operation.program smallHandlers everyMinute)) (laterOn 20) freshNode).1.fsm ∧
      ¬ smallLimits.Exact (Program.run (handle 0)
        (forEach [.post (some (dueRequest (some Payload.empty)))]
          (Operation.program smallHandlers everyMinute)) (laterOn 20) freshNode).1.fsm := by
  decide +kernel

end ScheduledDb
