import Mathlib.Algebra.BigOperators.Group.Finset.Basic
import ScheduledDb.Api.Accounting

/-!
# Do the counters count when handlers race?

A handler changes the jobs in one step and the two counters in two later ones.  In between the
counters are off by what the handler still *owes* them.  If every handler pays exactly what it owes,
the counters are exact again once all have finished.  Two things come between:

* a delete request that is overtaken by another one for the same job still counts the job off
  (`counters_drift`);
* a delete request that overtakes the counting of the create request finds counters that are too
  low, and a counter that would fall below zero is set to zero.

`counters_survive_race` says that there is nothing else: if every delete command finds its job and
every counter update stays within bounds, the accounting survives every interleaving.
-/

namespace ScheduledDb

open Machine Program Function Store Config Finset

/-! ## What a handler owes -/

/-- How far a handler has come: before it changed any job, with the job it has read, or with what
the counters are still to be told. -/
inductive Dues where
  | start
  | found (id : String) (job : Job)
  | owes (memory count : ℤ)

namespace Dues

def memory : Dues → ℤ
  | owes memory _ => memory
  | _ => 0

def count : Dues → ℤ
  | owes _ count => count
  | _ => 0

/-- What a handler's steps do to its dues.  It changes a job once, and then pays. -/
def ledger (lm : LimitManager) : Transformer Act Dues := fun β a Q g =>
  match β, a with
  | _, .isLeader => Q true g
  | _, .getJob id => ∀ answer, Q answer g ∨
      ∃ job, answer = some job ∧ g = .start ∧ Q answer (.found id job)
  | _, .raftApply cmd =>
    (cmd.LeavesJobs ∧ Q none g) ∨
    (∃ job, cmd = { type := .createJob, job := some job } ∧ g = .start ∧
      Q none (.owes (lm.size job) 1)) ∨
    (∃ id job, cmd = { type := .deleteJob, id := id } ∧ id ≠ "" ∧ g = .found id job ∧
      Q none (.owes (-lm.size job) (-1))) ∨
    (∃ memory count, cmd = { type := .updateMemoryUsage, memoryDelta := memory } ∧
      g = .owes memory count ∧ Q none (.owes 0 count)) ∨
    (∃ count, cmd = { type := .updateJobCount, jobCountDelta := count } ∧ g = .owes 0 count ∧
      Q none (.owes 0 0))
  | β, _ => ∀ answer : β, Q answer g

lemma ledger_issues {lm : LimitManager} {β : Type} {a : Act β} (ha : Issues Command.LeavesJobs β a)
    {Q : β → Dues → Prop} {g : Dues} (hQ : ∀ b, Q b g) : ledger lm β a Q g := by
  cases a with
  | raftApply cmd => exact Or.inl ⟨ha, hQ none⟩
  | isLeader => exact hQ true
  | getJob id => exact fun answer => Or.inl (hQ answer)
  | _ => exact hQ

/-! ## Handlers pay what they owe -/

/-- Nothing is owed any more. -/
def Paid (g : Dues) : Prop := g.memory = 0 ∧ g.count = 0

section Handlers

variable {lm : LimitManager} {g : Dues} {cmd : Command} {Q : Option String → Dues → Prop}
  {count : ℤ}

lemma ledger_raftApply (h : ledger lm _ (.raftApply cmd) Q g) :
    wpWith (ledger lm) (raftApply cmd) Q g := h

lemma ledger_propose (h : ledger lm _ (.raftApply cmd) Q g) :
    wpWith (ledger lm) (propose cmd) Q g := by
  simp only [propose, perform_bind, wpWith_step]
  exact wpWith_ite.mpr ⟨fun _ => ledger_raftApply h, fun hno => absurd rfl hno⟩

/-- The two counter updates of a handler, one after the other. -/
lemma ledger_updateMemoryUsage {memory : ℤ} (h : Q none (.owes 0 count)) :
    wpWith (ledger lm) (updateMemoryUsage memory) Q (.owes memory count) :=
  ledger_propose (Or.inr (Or.inr (Or.inr (Or.inl ⟨memory, count, rfl, rfl, h⟩))))

lemma ledger_updateJobCount (h : Q none (.owes 0 0)) :
    wpWith (ledger lm) (updateJobCount count) Q (.owes 0 count) :=
  ledger_propose (Or.inr (Or.inr (Or.inr (Or.inr ⟨count, rfl, rfl, h⟩))))

lemma ledger_notify (event : JobEvent) (job : Option Job) {Q : Unit → Dues → Prop} (h : Q () g) :
    wpWith (ledger lm) (notify PersistentSlotQueue.jobEventHandler event job) Q g := by
  have hnotify : All (Issues Command.LeavesJobs)
      (notify PersistentSlotQueue.jobEventHandler event job) :=
    issues_of_quiet (all_notify PersistentSlotQueue.all_jobEventHandler event job)
      fun _ hcmd => hcmd.leavesJobs
  exact hnotify.wpWith (fun a Q ha hQ => ledger_issues ha hQ) fun _ => h

lemma issues_checkCapacity (job : Job) :
    All (Issues Command.LeavesJobs) (lm.checkCapacity job) := by
  have husage : All (Issues Command.LeavesJobs) lm.memoryTracker.getUsage :=
    ⟨trivial, fun _ => trivial⟩
  have hmemory : All (Issues Command.LeavesJobs)
      (lm.memoryTracker.checkCapacity (lm.size job)) :=
    husage.bind fun _ => all_ite.mpr ⟨fun _ => trivial, fun _ => trivial⟩
  refine hmemory.bind fun r => ?_
  cases r with
  | some err => trivial
  | none => exact ⟨trivial, fun _ => all_ite.mpr ⟨fun _ => trivial, fun _ => trivial⟩⟩

variable {h : Handlers} (hlm : h.limitManager = some lm)
include hlm

lemma ledger_store (job : Job) : wpWith (ledger lm) (h.store job) (fun _ => Paid) .start := by
  refine wpWith_bind.mpr (wpWith_bind.mpr (ledger_propose (Or.inr (Or.inl ⟨job, rfl, rfl, ?_⟩))))
  refine wpWith_bind.mpr (ledger_notify .created (some job) ?_)
  show wpWith (ledger lm) (h.countAdded job >>= fun _ => pure (HttpResponse.job job)) _ _
  simp only [Handlers.countAdded, hlm, wpWith_bind]
  refine wpWith_bind.mpr (ledger_updateMemoryUsage ?_)
  exact wpWith_bind.mpr (ledger_updateJobCount ⟨rfl, rfl⟩)

lemma ledger_createJob (body : Option CreateJobRequest) :
    wpWith (ledger lm) (h.createJob body) (fun _ => Paid) .start := by
  refine h.wpWith_createJob_of body (R := fun g => g = .start)
    (fun a Q g ha hg hQ => ledger_issues (Issues.of_quiet ha) fun b => hQ b g hg) ?_ ?_ rfl
  · rintro _ _ rfl
    exact ⟨rfl, rfl⟩
  · rintro job _ rfl
    simp only [Handlers.checkCapacity, hlm]
    refine (issues_checkCapacity job).wpWith (fun a Q ha hQ => ledger_issues ha hQ) fun err => ?_
    cases err with
    | some err => exact ⟨rfl, rfl⟩
    | none => exact ledger_store hlm job

lemma ledger_remove {id : String} (hid : id ≠ "") (job : Job) :
    wpWith (ledger lm) (h.remove id job) (fun _ => Paid) (.found id job) := by
  refine wpWith_bind.mpr ?_
  simp only [deleteJob, perform_bind, wpWith_step]
  refine wpWith_ite.mpr ⟨fun _ answer => Or.inl ?_, fun hno => absurd rfl hno⟩
  refine wpWith_bind.mpr (ledger_raftApply (Or.inr (Or.inr (Or.inl ⟨id, job, rfl, hid, rfl, ?_⟩))))
  refine wpWith_bind.mpr (ledger_notify .deleted answer ?_)
  show wpWith (ledger lm) (h.countRemoved job >>= fun _ => pure HttpResponse.noContent) _ _
  simp only [Handlers.countRemoved, hlm, wpWith_bind]
  exact wpWith_bind.mpr (ledger_updateMemoryUsage (ledger_updateJobCount ⟨rfl, rfl⟩))

lemma ledger_deleteJob (id : String) :
    wpWith (ledger lm) (h.deleteJob id) (fun _ => Paid) .start := by
  simp only [Handlers.deleteJob, perform_bind, wpWith_step]
  refine wpWith_ite.mpr ⟨fun _ => wpWith_ite.mpr ⟨fun _ => ⟨rfl, rfl⟩, fun hid answer => ?_⟩,
    fun hno => absurd rfl hno⟩
  cases answer with
  | none => exact Or.inl ⟨rfl, rfl⟩
  | some job => exact Or.inr ⟨job, rfl, rfl, ledger_remove hlm hid job⟩

end Handlers

end Dues

/-! ## The books -/

/-- What the counters say and what the handlers owe is what there is. -/
structure Books (lm : LimitManager) (handlers : ℕ) (f : FSM) (l : ℕ → Dues) : Prop where
  count : (f.jobs.keys.card : ℤ) = f.jobCount + ∑ t ∈ Finset.range handlers, (l t).count
  memory : f.jobs.total lm.size = f.memoryUsage + ∑ t ∈ Finset.range handlers, (l t).memory

variable {tid handlers : ℕ} {l : ℕ → Dues} {ids : ℕ → String} {lm : LimitManager}

lemma sum_update (htid : tid < handlers) (amount : Dues → ℤ) (l : ℕ → Dues) (g : Dues) :
    ∑ t ∈ range handlers, amount (update l tid g t)
      = (∑ t ∈ range handlers, amount (l t)) - amount (l tid) + amount g := by
  have hmem : tid ∈ range handlers := mem_range.mpr htid
  rw [← add_sum_erase _ _ hmem, ← add_sum_erase _ (fun t => amount (l t)) hmem,
    update_self]
  have hrest : ∑ t ∈ (range handlers).erase tid, amount (update l tid g t)
      = ∑ t ∈ (range handlers).erase tid, amount (l t) := by
    refine sum_congr rfl fun t ht => ?_
    rw [update_of_ne (ne_of_mem_erase ht)]
  rw [hrest]
  omega

namespace Books

variable {lm : LimitManager} {handlers tid : ℕ} {f f' : FSM} {l : ℕ → Dues} {g : Dues}

/-- A step that moves jobs, counters and dues by matching amounts. -/
lemma move (h : Books lm handlers f l) (htid : tid < handlers)
    (hcount : (f'.jobs.keys.card : ℤ) - f'.jobCount - g.count
      = f.jobs.keys.card - f.jobCount - (l tid).count)
    (hmemory : f'.jobs.total lm.size - f'.memoryUsage - g.memory
      = f.jobs.total lm.size - f.memoryUsage - (l tid).memory) :
    Books lm handlers f' (update l tid g) where
  count := by
    rw [sum_update htid Dues.count]
    have hbefore := h.count
    omega
  memory := by
    rw [sum_update htid Dues.memory]
    have hbefore := h.memory
    omega

/-- The step that creates a job. -/
lemma created {job : Job} (h : Books lm handlers f l) (htid : tid < handlers)
    (hstart : l tid = .start) (hfresh : f.jobs.lookup job.id = none)
    (hpayload : job.payload ≠ some Payload.empty) (faults : ColdFaults) :
    Books lm handlers (f.apply faults { type := .createJob, job := some job }).1
      (update l tid (.owes (lm.size job) 1)) := by
  rw [FSM.apply_createJob, Job.wire_eq_self hpayload]
  refine h.move htid ?_ ?_
  · rw [hstart]
    have hcard := Finmap.card_keys_insert job hfresh
    simp only [Dues.count, hcard]
    omega
  · rw [hstart]
    simp only [Dues.memory, Finmap.total_insert lm.size job hfresh]
    omega

/-- The step that deletes a job. -/
lemma deleted {id : String} {job : Job} (h : Books lm handlers f l) (htid : tid < handlers)
    (hfound : l tid = .found id job) (hid : id ≠ "") (hjob : f.jobs.lookup id = some job)
    (faults : ColdFaults) :
    Books lm handlers (f.apply faults { type := .deleteJob, id := id }).1
      (update l tid (.owes (-lm.size job) (-1))) := by
  rw [FSM.apply_deleteJob _ _ hid]
  refine h.move htid ?_ ?_
  · rw [hfound]
    have hcard := Finmap.card_keys_erase hjob
    simp only [Dues.count]
    omega
  · rw [hfound]
    have htotal := Finmap.total_erase lm.size hjob
    simp only [Dues.memory]
    omega

/-- The steps that tell the counters. -/
lemma toldMemory {memory count : ℤ} (h : Books lm handlers f l) (htid : tid < handlers)
    (howes : l tid = .owes memory count) (hlow : 0 ≤ f.memoryUsage + memory)
    (hrange : InRange (f.memoryUsage + memory)) (faults : ColdFaults) :
    Books lm handlers (f.apply faults { type := .updateMemoryUsage, memoryDelta := memory }).1
      (update l tid (.owes 0 count)) := by
  refine h.move htid ?_ ?_
  · rw [howes]
    rfl
  · rw [howes]
    show f.jobs.total lm.size - FSM.addClamped f.memoryUsage memory - 0
      = f.jobs.total lm.size - f.memoryUsage - memory
    rw [FSM.addClamped_eq hrange hlow]
    omega

lemma toldCount {count : ℤ} (h : Books lm handlers f l) (htid : tid < handlers)
    (howes : l tid = .owes 0 count) (hlow : 0 ≤ f.jobCount + count)
    (hrange : InRange (f.jobCount + count)) (faults : ColdFaults) :
    Books lm handlers (f.apply faults { type := .updateJobCount, jobCountDelta := count }).1
      (update l tid (.owes 0 0)) := by
  refine h.move htid ?_ ?_
  · rw [howes]
    show (f.jobs.keys.card : ℤ) - FSM.addClamped f.jobCount count - 0
      = f.jobs.keys.card - f.jobCount - count
    rw [FSM.addClamped_eq hrange hlow]
    omega
  · rw [howes]
    rfl

end Books

/-! ## Ids are not used twice -/

/-- The id of a job still to be created is not in use, and nobody has read a job of that id; what
was read of a job is what is there, if it is there. -/
structure Fresh (ids : ℕ → String) (f : FSM) (l : ℕ → Dues) : Prop where
  unused : ∀ t, l t = .start → f.jobs.lookup (ids t) = none
  current : ∀ t id job, l t = .found id job → ∀ job', f.jobs.lookup id = some job' → job' = job
  unread : ∀ t id job, l t = .found id job → ∀ t', l t' = .start → ids t' ≠ id

lemma update_eq_of_ne {t : ℕ} {g x : Dues} (h : update l tid g t = x) (hg : g ≠ x) :
    t ≠ tid ∧ l t = x := by
  by_cases ht : t = tid
  · subst ht
    rw [update_self] at h
    exact absurd h hg
  · rw [update_of_ne ht] at h
    exact ⟨ht, h⟩

namespace Fresh

variable {ids : ℕ → String} {tid : ℕ} {f f' : FSM} {l l' : ℕ → Dues} {count memory : ℤ} {job : Job}

/-- Fewer jobs, fewer handlers that start or have read. -/
lemma mono (h : Fresh ids f l)
    (hjobs : ∀ id job, f'.jobs.lookup id = some job → f.jobs.lookup id = some job)
    (hstart : ∀ t, l' t = .start → l t = .start)
    (hfound : ∀ t id job, l' t = .found id job → l t = .found id job) : Fresh ids f' l' where
  unused t ht := by
    cases hjob : f'.jobs.lookup (ids t) with
    | none => rfl
    | some job =>
      have hbefore := h.unused t (hstart t ht)
      rw [hjobs _ _ hjob] at hbefore
      cases hbefore
  current t id job ht job' hjob' := h.current t id job (hfound t id job ht) job' (hjobs _ _ hjob')
  unread t id job ht t' ht' := h.unread t id job (hfound t id job ht) t' (hstart t' ht')

/-- A step that adds no job, of a handler that has changed a job. -/
lemma owes (h : Fresh ids f l)
    (hjobs : ∀ id job, f'.jobs.lookup id = some job → f.jobs.lookup id = some job) :
    Fresh ids f' (update l tid (.owes memory count)) :=
  h.mono hjobs (fun _ ht => (update_eq_of_ne ht (by simp)).2)
    fun _ _ _ ht => (update_eq_of_ne ht (by simp)).2

/-- The step that reads the job to be deleted. -/
lemma read {id : String} (h : Fresh ids f l) (hjob : f.jobs.lookup id = some job) :
    Fresh ids f (update l tid (.found id job)) where
  unused t ht := h.unused t (update_eq_of_ne ht (by simp)).2
  current t id' job' ht job'' hjob'' := by
    by_cases htid : t = tid
    · subst htid
      rw [update_self] at ht
      obtain ⟨rfl, rfl⟩ := Dues.found.inj ht
      exact Option.some.inj (hjob''.symm.trans hjob)
    · rw [update_of_ne htid] at ht
      exact h.current t id' job' ht job'' hjob''
  unread t id' job' ht t' ht' := by
    have hunused := h.unused t' (update_eq_of_ne ht' (by simp)).2
    by_cases htid : t = tid
    · subst htid
      rw [update_self] at ht
      obtain ⟨rfl, rfl⟩ := Dues.found.inj ht
      rintro rfl
      rw [hjob] at hunused
      cases hunused
    · rw [update_of_ne htid] at ht
      exact h.unread t id' job' ht t' (update_eq_of_ne ht' (by simp)).2

/-- The step that creates a job. -/
lemma created (hids : Injective ids) (h : Fresh ids f l) (hstart : l tid = .start)
    (hjobs : f'.jobs = f.jobs.insert (ids tid) job) :
    Fresh ids f' (update l tid (.owes memory count)) where
  unused t ht := by
    obtain ⟨hne, ht⟩ := update_eq_of_ne ht (by simp)
    rw [hjobs, Finmap.lookup_insert_of_ne _ fun heq => hne (hids heq)]
    exact h.unused t ht
  current t id job' ht job'' hjob'' := by
    obtain ⟨_, ht⟩ := update_eq_of_ne ht (by simp)
    -- nobody has read a job of the id that is used now
    rw [hjobs, Finmap.lookup_insert_of_ne _ (h.unread t id job' ht tid hstart).symm] at hjob''
    exact h.current t id job' ht job'' hjob''
  unread t id job' ht t' ht' :=
    h.unread t id job' (update_eq_of_ne ht (by simp)).2 t' (update_eq_of_ne ht' (by simp)).2

end Fresh

/-! ## All handlers together -/

/-- One request. -/
inductive Call where
  | post (body : Option CreateJobRequest)
  | delete (id : String)

def Call.program (h : Handlers) : Call → Program Act Unit
  | post body => h.createJob body >>= fun _ => pure ()
  | delete id => h.deleteJob id >>= fun _ => pure ()

/-- Every request has its handler. -/
def handling (h : Handlers) (calls : List Call) (t : ℕ) : Program Act Unit :=
  match calls[t]? with
  | some call => call.program h
  | none => pure ()

/-- The job a handler creates has an id of its own and no explicit empty payload. -/
def Named (ids : ℕ → String) (_ : Config Act Node) (tid : ℕ) (β : Type) (a : Act β) (_ : Env) :
    Prop :=
  ∀ cmd ∈ a.command, cmd.type = .createJob → ∀ job ∈ cmd.job,
    job.id = ids tid ∧ job.payload ≠ some Payload.empty

/-- A delete command finds its job, and a counter update leads neither below zero nor out of the
64-bit range. -/
def Command.Lands (f : FSM) (cmd : Command) : Prop :=
  match cmd.type with
  | .deleteJob => (f.jobs.lookup cmd.id).isSome
  | .updateMemoryUsage =>
    0 ≤ f.memoryUsage + cmd.memoryDelta ∧ InRange (f.memoryUsage + cmd.memoryDelta)
  | .updateJobCount => 0 ≤ f.jobCount + cmd.jobCountDelta ∧ InRange (f.jobCount + cmd.jobCountDelta)
  | _ => True

/-- Every command that a step applies lands. -/
def Landing (c : Config Act Node) (_ : ℕ) (β : Type) (a : Act β) (_ : Env) : Prop :=
  ∀ cmd ∈ a.command, cmd.Lands c.state.fsm

instance (ids : ℕ → String) (c : Config Act Node) (tid : ℕ) (β : Type) (a : Act β) (e : Env) :
    Decidable (Named ids c tid β a e) :=
  inferInstanceAs (Decidable (∀ _ ∈ _, _))

instance (f : FSM) (cmd : Command) : Decidable (cmd.Lands f) := by
  unfold Command.Lands
  cases cmd.type <;> exact inferInstance

instance (c : Config Act Node) (tid : ℕ) (β : Type) (a : Act β) (e : Env) :
    Decidable (Landing c tid β a e) :=
  inferInstanceAs (Decidable (∀ _ ∈ _, _))

/-- What is asked of every step. -/
def Fair (ids : ℕ → String) (c : Config Act Node) (tid : ℕ) (β : Type) (a : Act β) (e : Env) :
    Prop :=
  StableLeader c tid β a e ∧ Named ids c tid β a e ∧ Landing c tid β a e

/-- Only the threads of requests take steps. -/
def Dues.ledgerOf (lm : LimitManager) (handlers t : ℕ) : Transformer Act Dues := fun β a Q g =>
  t < handlers ∧ Dues.ledger lm β a Q g

/-- The counters are exact up to what the requests owe, and ids not yet given are not in use. -/
structure Balanced (lm : LimitManager) (handlers : ℕ) (ids : ℕ → String) (n : Node)
    (l : ℕ → Dues) : Prop where
  books : Books lm handlers n.fsm l
  fresh : Fresh ids n.fsm l

/-- A step that leaves jobs and counters alone. -/
lemma Balanced.keep {n n' : Node} (h : Balanced lm handlers ids n l)
    (hsame : n.fsm.SameJobs n'.fsm) :
    Balanced lm handlers ids n' (update l tid (l tid)) := by
  rw [update_eq_self]
  constructor
  · constructor
    · rw [hsame.jobs, hsame.jobCount]
      exact h.books.count
    · rw [hsame.jobs, hsame.memoryUsage]
      exact h.books.memory
  · refine h.fresh.mono (fun id job hjob => ?_) (fun _ ht => ht) fun _ _ _ ht => ht
    rwa [hsame.jobs] at hjob

/-- **One step of one handler.** -/
lemma balanced_step (hids : Injective ids) (c : Config Act Node) (l : ℕ → Dues) (tid : ℕ) {β : Type}
    (a : Act β) (e : Env) (Q : β → Dues → Prop) (hguard : Fair ids c tid β a e)
    (h : Balanced lm handlers ids c.state l) (ha : Dues.ledgerOf lm handlers tid β a Q (l tid)) :
    ∃ g, Q (handle tid β a e c.state).2 g ∧
      Balanced lm handlers ids (handle tid β a e c.state).1 (update l tid g) := by
  obtain ⟨⟨hleader, hcommit⟩, hnamed, hlands⟩ := hguard
  obtain ⟨htid, ha⟩ := ha
  have hsame := FSM.SameJobs.refl c.state.fsm
  cases a with
  | raftApply cmd =>
    have happly : handle tid _ (.raftApply cmd) e c.state
        = (c.state.applyCommand tid e.faults cmd, none) := by
      simp [handle, hcommit, Env.applies]
    rw [happly]
    rcases ha with ⟨hcmd, hQ⟩ | ⟨job, rfl, hstart, hQ⟩ | ⟨id, job, rfl, hid, hfound, hQ⟩ |
      ⟨memory, count, rfl, howes, hQ⟩ | ⟨count, rfl, howes, hQ⟩
    · exact ⟨l tid, hQ, h.keep (FSM.sameJobs_apply hcmd c.state.fsm e.faults)⟩
    · obtain ⟨hid, hpayload⟩ := hnamed _ rfl rfl job rfl
      have hunused : c.state.fsm.jobs.lookup job.id = none := by
        rw [hid]
        exact h.fresh.unused tid hstart
      refine ⟨_, hQ, h.books.created htid hstart hunused hpayload e.faults, ?_⟩
      have hjobs : (c.state.applyCommand tid e.faults
          { type := .createJob, job := some job }).fsm.jobs
            = c.state.fsm.jobs.insert (ids tid) job.wire := by
        rw [← hid]
        rfl
      exact h.fresh.created hids hstart hjobs
    · obtain ⟨job', hjob'⟩ := Option.isSome_iff_exists.mp (hlands _ rfl)
      obtain rfl := h.fresh.current tid id job hfound job' hjob'
      refine ⟨_, hQ, h.books.deleted htid hfound hid hjob' e.faults,
        h.fresh.owes fun id' job'' hjob'' => ?_⟩
      rw [Node.applyCommand_fsm, FSM.apply_deleteJob _ _ hid] at hjob''
      exact Finmap.lookup_of_erase hjob''
    · obtain ⟨hlow, hrange⟩ := hlands _ rfl
      refine ⟨_, hQ, h.books.toldMemory htid howes hlow hrange e.faults, ?_⟩
      apply h.fresh.owes
      exact fun _ _ hjob => hjob
    · obtain ⟨hlow, hrange⟩ := hlands _ rfl
      refine ⟨_, hQ, h.books.toldCount htid howes hlow hrange e.faults, ?_⟩
      apply h.fresh.owes
      exact fun _ _ hjob => hjob
  | isLeader =>
    refine ⟨l tid, ?_, h.keep hsame⟩
    show Q e.leader (l tid)
    rw [hleader]
    exact ha
  | getJob id =>
    rcases ha (c.state.fsm.getJob id) with hQ | ⟨job, hjob, hstart, hQ⟩
    · exact ⟨l tid, hQ, h.keep hsame⟩
    · refine ⟨_, hQ, h.books.move htid ?_ ?_, h.fresh.read hjob⟩
      · rw [hstart]
        rfl
      · rw [hstart]
        rfl
  | _ =>
    refine ⟨l tid, ha _, ?_⟩
    apply h.keep
    exact hsame

lemma ledgerOf_handling {h : Handlers} (hlm : h.limitManager = some lm) (calls : List Call)
    (t : ℕ) :
    wpWith (Dues.ledgerOf lm calls.length t) (handling h calls t) (fun _ => Dues.Paid) .start := by
  unfold handling
  cases hcall : calls[t]? with
  | none => exact ⟨rfl, rfl⟩
  | some call =>
    have ht : t < calls.length := (List.getElem?_eq_some_iff.mp hcall).1
    have hledger : Dues.ledgerOf lm calls.length t = Dues.ledger lm := by
      funext β a Q g
      simp [Dues.ledgerOf, ht]
    rw [hledger]
    cases call with
    | post body => exact wpWith_bind.mpr (Dues.ledger_createJob hlm body)
    | delete id => exact wpWith_bind.mpr (Dues.ledger_deleteJob hlm id)

/-- **The counters survive the race**: after every interleaving of create and delete requests, each
job with an id of its own, in which every delete command finds its job and every counter update
stays within bounds, the counters are exact again. -/
theorem counters_survive_race (h : Handlers) (lm : LimitManager) (hlm : h.limitManager = some lm)
    (calls : List Call) (ids : ℕ → String) (hids : Injective ids) (n : Node)
    (hexact : lm.Exact n.fsm) (hfresh : ∀ t, n.fsm.jobs.lookup (ids t) = none)
    (sched : List (ℕ × Env)) (hstable : ∀ x ∈ sched, x.2.Stable)
    (hnamed : Along handle (Named ids) ⟨n, handling h calls⟩ sched)
    (hlanding : Along handle Landing ⟨n, handling h calls⟩ sched) (hdone : ∀ t < calls.length,
      ((run handle ⟨n, handling h calls⟩ sched).threads t).isDone = true) :
    lm.Exact (run handle ⟨n, handling h calls⟩ sched).state.fsm := by
  have hbooks : Books lm calls.length n.fsm fun _ => .start :=
    ⟨by simp [Dues.count, hexact.jobCount], by simp [Dues.memory, hexact.memoryUsage]⟩
  have hunread : Fresh ids n.fsm fun _ => .start :=
    { unused := fun t _ => hfresh t
      current := fun _ _ _ ht => Dues.noConfusion ht
      unread := fun _ _ _ ht => Dues.noConfusion ht }
  obtain ⟨l, hbalanced, hlocal⟩ := run_local (C := Fair ids)
    (T := fun t => Dues.ledgerOf lm calls.length t) (R := fun _ => Dues.Paid)
    (I := Balanced lm calls.length ids) (c := ⟨n, handling h calls⟩) (l := fun _ => .start)
    (fun c l tid _ a e Q hguard hI _ ha => balanced_step hids c l tid a e Q hguard hI ha)
    ⟨hbooks, hunread⟩ (ledgerOf_handling hlm calls)
    ((along_stable hstable _).and handle (hnamed.and handle hlanding))
  have hpaid : ∀ t ∈ range calls.length, (l t).Paid := by
    intro t ht
    have hown := hlocal t
    cases hthread : (run handle ⟨n, handling h calls⟩ sched).threads t with
    | done a =>
      rw [hthread] at hown
      exact hown
    | step a k =>
      have hno := hdone t (mem_range.mp ht)
      rw [hthread] at hno
      cases hno
  constructor
  · have hcount := hbalanced.books.count
    rw [sum_eq_zero fun t ht => (hpaid t ht).2] at hcount
    omega
  · have hmemory := hbalanced.books.memory
    rw [sum_eq_zero fun t ht => (hpaid t ht).1] at hmemory
    omega

/-! ### Races for two jobs -/

/-- The jobs "a", "aa", and so on. -/
def tally (t : ℕ) : String := String.ofList (List.replicate (t + 1) 'a')

lemma tally_injective : Injective tally := by
  intro t t' h
  have hlength := congrArg List.length (String.ofList_injective h)
  simpa using hlength

/-- Two requests for a job each, then two to delete the first one. -/
def fourCalls : List Call :=
  [.post (some (dueRequest none)), .post (some { dueRequest none with id := "aa" }),
    .delete "a", .delete "a"]

/-- Some steps of one handler. -/
def turns (t steps : ℕ) : List (ℕ × Env) := List.replicate steps (t, Env.calm 0)

/-- Thirty steps of each of two handlers, in turn. -/
def side (t t' : ℕ) : List (ℕ × Env) :=
  (List.replicate 30 [(t, Env.calm 0), (t', Env.calm 0)]).flatten

/-- Two jobs are created side by side, and one is deleted; its second delete request comes late. -/
theorem counters_survive_late_delete :
    let c := run handle ⟨freshNode, handling smallHandlers fourCalls⟩
      (side 0 1 ++ turns 2 30 ++ turns 3 30)
    smallLimits.Exact c.state.fsm ∧ c.state.fsm.jobs.keys.card = 1 :=
  ⟨counters_survive_race smallHandlers smallLimits rfl fourCalls tally tally_injective freshNode
    (by decide +kernel) (fun _ => rfl) _ (by decide +kernel)
    (along_of_test handle (by decide +kernel))
    (along_of_test handle (by decide +kernel)) (by decide +kernel), by decide +kernel⟩

/-- **The counters drift** for good when two requests delete one job, and when a job is deleted
before it is counted. -/
theorem counters_drift :
    smallLimits.Exact freshNode.fsm ∧
    (let sched := turns 0 30 ++ turns 1 30 ++ side 2 3
      let c := run handle ⟨freshNode, handling smallHandlers fourCalls⟩ sched
      Along handle (Named tally) ⟨freshNode, handling smallHandlers fourCalls⟩ sched ∧
      (∀ t < 4, (c.threads t).isDone = true) ∧ c.state.fsm.jobs.keys.card = 1 ∧
      c.state.fsm.jobCount = 0 ∧ ¬ smallLimits.Exact c.state.fsm) ∧
    (let sched := turns 0 7 ++ turns 2 30 ++ turns 0 30 ++ turns 3 30 ++ turns 1 30
      let c := run handle ⟨freshNode, handling smallHandlers fourCalls⟩ sched
      Along handle (Named tally) ⟨freshNode, handling smallHandlers fourCalls⟩ sched ∧
      (∀ t < 4, (c.threads t).isDone = true) ∧ c.state.fsm.jobs.keys.card = 1 ∧
      c.state.fsm.jobCount = 2 ∧ ¬ smallLimits.Exact c.state.fsm) := by
  refine ⟨by decide +kernel, ⟨along_of_test handle (by decide +kernel), by decide +kernel⟩,
    along_of_test handle (by decide +kernel), by decide +kernel⟩

end ScheduledDb
