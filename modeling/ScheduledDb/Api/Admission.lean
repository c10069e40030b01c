import Mathlib.Algebra.Order.Group.Int
import ScheduledDb.Api.Accounting

/-!
# Do the limits hold when requests come together?

A create request reads both counters, creates its job and then changes the counters, in steps of
which others may come between.  Two requests that both read before either counts are both admitted:
`limits_exceeded` shows two jobs under a limit of one.

`limits_hold` says what keeps the limits: that nobody reads the memory usage while another request
is between its reading and its last counter update.  The proof follows one request at a time through
its phases; outside of them a thread touches neither jobs nor counters.
-/

namespace ScheduledDb

open Machine Program Config

/-- The limits hold for the jobs that are there. -/
structure LimitManager.Within (lm : LimitManager) (f : FSM) : Prop where
  jobCount : (f.jobs.keys.card : ℤ) ≤ lm.jobCounter.limit
  memoryUsage : f.jobs.total lm.size ≤ lm.memoryTracker.memoryLimit

/-- The counters do not fall short of what they count. -/
structure LimitManager.Covers (lm : LimitManager) (f : FSM) : Prop where
  jobCount : f.jobs.keys.card ≤ f.jobCount
  memoryUsage : f.jobs.total lm.size ≤ f.memoryUsage

/-! ## When a thread is outside -/

def Act.readsMemory {β : Type} : Act β → Bool
  | .getMemoryUsage => true
  | _ => false

/-- The thread touches neither jobs nor counters before it next reads the memory usage. -/
def Idle {α : Type} : Program Act α → Prop
  | .done _ => True
  | .step a k => a.readsMemory = true ∨ Quiet Command.LeavesJobs _ a ∧ ∀ b, Idle (k b)

/-- A reading of the memory usage finds all other threads idle. -/
def Exclusive (c : Config Act Node) (tid : ℕ) (β : Type) (a : Act β) (_ : Env) : Prop :=
  a.readsMemory = true → ∀ t, t ≠ tid → Idle (c.threads t)

/-- The size of a job that is created fits into the memory counter. -/
def Fits (lm : LimitManager) (c : Config Act Node) (_ : ℕ) (β : Type) (a : Act β) (_ : Env) : Prop :=
  ∀ cmd ∈ a.command, cmd.type = .createJob → ∀ job ∈ cmd.job,
    InRange (c.state.fsm.memoryUsage + lm.size job)

/-! ## The phases of a request -/

/-- How far a request has come, with what it has read. -/
inductive Phase where
  | out
  | readMemory (memoryUsage : ℤ)
  | readBoth (memoryUsage jobCount : ℤ)
  | created (size : ℤ)
  | counted

namespace Phase

/-- What a request's steps do to its phase.  A reading that leads to a rejection need not be
remembered. -/
def admission (lm : LimitManager) : Transformer Act Phase := fun β a Q g =>
  match β, a with
  | _, .getMemoryUsage => g = .out ∧ ∀ m, Q m .out ∨ Q m (.readMemory m)
  | _, .getJobCount => ∃ m, g = .readMemory m ∧ ∀ c, Q c .out ∨ Q c (.readBoth m c)
  | _, .isLeader => Q true g
  | _, .queue f => ∀ q, Q (f q).2 g
  | _, .raftApply cmd =>
    (cmd.LeavesJobs ∧ Q none g) ∨
    (∃ job m c, cmd = { type := .createJob, job := some job } ∧ g = .readBoth m c ∧
      wrap64 (m + lm.size job) ≤ lm.memoryTracker.memoryLimit ∧ c < lm.jobCounter.limit ∧
      Q none (.created (lm.size job))) ∨
    (∃ size, cmd = { type := .updateMemoryUsage, memoryDelta := size } ∧ g = .created size ∧
      Q none .counted) ∨
    (cmd = { type := .updateJobCount, jobCountDelta := 1 } ∧ g = .counted ∧ Q none .out)
  | _, .now => ∀ b, Q b g
  | _, .newUUID => ∀ b, Q b g
  | _, .getJob _ => ∀ b, Q b g
  | _, .lookupSlot _ => ∀ b, Q b g
  | _, .getColdSlot _ => ∀ b, Q b g
  | _, .getAllSlots => ∀ b, Q b g
  | _, .getExecutionState _ => ∀ b, Q b g
  | _, .getAllExecutionStates => ∀ b, Q b g
  | _, .isColdSpillingEnabled => ∀ b, Q b g
  | _, .getColdSlotKeys => ∀ b, Q b g
  | _, .getColdSlotData _ => ∀ b, Q b g
  | _, .executeWebhook _ => ∀ b, Q b g
  | _, .statusChanged _ _ => Q () g

/-- An idle thread that will be outside in the end is outside now. -/
lemma out_of_idle {lm : LimitManager} {p : Program Act Unit} {g : Phase} (hidle : Idle p)
    (h : wpWith (admission lm) p (fun _ g => g = .out) g) : g = .out := by
  induction p with
  | done a => exact h
  | step a k ih =>
    rcases hidle with hreads | ⟨hquiet, hrest⟩
    · cases a with
      | getMemoryUsage => exact h.1
      | _ => simp [Act.readsMemory] at hreads
    · cases a with
      | getMemoryUsage => exact h.1
      | getJobCount | executeWebhook job => exact absurd hquiet (fun h => h)
      | isLeader => exact ih true (hrest true) h
      | queue f => exact ih _ (hrest _) (h freshNode.queue)
      | raftApply cmd =>
        rcases h with ⟨_, h⟩ | ⟨job, m, c, rfl, _⟩ | ⟨size, rfl, _⟩ | ⟨rfl, _⟩
        · exact ih none (hrest none) h
        · simp [Quiet, Command.LeavesJobs] at hquiet
        · simp [Quiet, Command.LeavesJobs] at hquiet
        · simp [Quiet, Command.LeavesJobs] at hquiet
      | statusChanged oldStatus newStatus => exact ih () (hrest ()) h
      | _ => exact ih default (hrest default) (h default)

/-- Quiet steps keep the phase. -/
lemma admission_quiet {lm : LimitManager} {β : Type} {a : Act β} (ha : Quiet Command.LeavesJobs β a)
    {Q : β → Phase → Prop} {g : Phase} (hQ : ∀ b, Q b g) : admission lm β a Q g := by
  cases a with
  | getMemoryUsage | getJobCount | executeWebhook job => exact absurd ha (fun h => h)
  | raftApply cmd => exact Or.inl ⟨ha, hQ none⟩
  | isLeader => exact hQ true
  | queue f => exact fun q => hQ _
  | statusChanged oldStatus newStatus => exact hQ ()
  | _ => exact hQ

end Phase

/-! ## A request goes through its phases -/

section Request

open Phase

variable {lm : LimitManager} {g : Phase}

lemma admission_propose {cmd : Command} {Q : Option String → Phase → Prop}
    (h : admission lm _ (.raftApply cmd) Q g) : wpWith (admission lm) (Store.propose cmd) Q g := by
  simp only [Store.propose, Store.raftApply, perform_bind, wpWith_step]
  exact wpWith_ite.mpr ⟨fun _ => h, fun hno => absurd rfl hno⟩

lemma admission_checkCapacity {job : Job} {Q : Option CapacityError → Phase → Prop}
    (hreject : ∀ err, Q (some err) .out)
    (haccept : ∀ m c, wrap64 (m + lm.size job) ≤ lm.memoryTracker.memoryLimit →
      c < lm.jobCounter.limit → Q none (.readBoth m c)) :
    wpWith (admission lm) (lm.checkCapacity job) Q .out := by
  simp only [LimitManager.checkCapacity, MemoryTracker.checkCapacity, MemoryTracker.getUsage,
    JobCounter.checkCapacity, perform_bind, wpWith_bind, wpWith_step]
  refine ⟨rfl, fun m => ?_⟩
  by_cases hm : wrap64 (m + lm.size job) > lm.memoryTracker.memoryLimit
  · exact Or.inl (wpWith_ite.mpr ⟨fun _ => hreject _, fun hno => absurd hm hno⟩)
  · refine Or.inr (wpWith_ite.mpr ⟨fun hyes => absurd hyes hm, fun _ => ⟨m, rfl, fun c => ?_⟩⟩)
    by_cases hc : c ≥ lm.jobCounter.limit
    · exact Or.inl (wpWith_ite.mpr ⟨fun _ => hreject _, fun hno => absurd hc hno⟩)
    · exact Or.inr (wpWith_ite.mpr ⟨fun hyes => absurd hyes hc, fun _ =>
        haccept m c (not_lt.mp hm) (not_le.mp hc)⟩)

lemma admission_recordJobAdded (job : Job) :
    wpWith (admission lm) (lm.recordJobAdded job) (fun _ g => g = .out)
      (.created (lm.size job)) := by
  refine wpWith_bind.mpr (admission_propose (Or.inr (Or.inr (Or.inl ⟨_, rfl, rfl, ?_⟩))))
  exact wpWith_bind.mpr (admission_propose (Or.inr (Or.inr (Or.inr ⟨rfl, rfl, rfl⟩))))

lemma admission_store {h : Handlers} (hlm : h.limitManager = some lm) (job : Job) {m c : ℤ}
    (hm : wrap64 (m + lm.size job) ≤ lm.memoryTracker.memoryLimit) (hc : c < lm.jobCounter.limit) :
    wpWith (admission lm) (h.store job) (fun _ g => g = .out) (.readBoth m c) := by
  refine wpWith_bind.mpr (wpWith_bind.mpr (admission_propose
    (Or.inr (Or.inl ⟨job, m, c, rfl, rfl, hm, hc, ?_⟩))))
  have hnotify : All (Quiet Command.LeavesJobs)
      (Store.notify PersistentSlotQueue.jobEventHandler .created (some job)) :=
    Store.quiet_mono (Store.all_notify PersistentSlotQueue.all_jobEventHandler _ _)
      fun _ hcmd => hcmd.leavesJobs
  refine wpWith_bind.mpr (hnotify.wpWith (fun a Q ha hQ => admission_quiet ha hQ) fun _ => ?_)
  show wpWith (admission lm) (h.countAdded job >>= fun _ => pure (HttpResponse.job job)) _ _
  simp only [Handlers.countAdded, hlm, wpWith_bind]
  exact admission_recordJobAdded job

/-- **A create request goes through the phases**, from outside to outside. -/
lemma admission_createJob {h : Handlers} (hlm : h.limitManager = some lm)
    (body : Option CreateJobRequest) :
    wpWith (admission lm) (h.createJob body) (fun _ g => g = .out) .out := by
  refine Handlers.wpWith_createJob_of h body (R := fun g => g = .out)
    (fun a Q g ha hg hQ => admission_quiet ha fun b => hQ b g hg) (fun _ _ hg => hg) ?_ rfl
  rintro job _ rfl
  simp only [Handlers.checkCapacity, hlm]
  exact admission_checkCapacity (fun _ => rfl) fun m c hm hc => admission_store hlm job hm hc

end Request

/-! ## What a phase says about the shared state -/

/-- The log delivers no job that is larger than the one that was sent. -/
lemma LimitManager.size_wire_le (lm : LimitManager) (job : Job) : lm.size job.wire ≤ lm.size job := by
  have hpayload : (job.wire.payload.map SizeCalculator.calculatePayloadSize).getD 0
      ≤ (job.payload.map SizeCalculator.calculatePayloadSize).getD 0 := by
    simp only [Job.wire]
    split_ifs
    · exact Nat.zero_le _
    · exact le_rfl
  have hrest : job.wire.id = job.id ∧ job.wire.webhookURL = job.webhookURL ∧
      job.wire.cronExpr = job.cronExpr := ⟨rfl, rfl, rfl⟩
  simp only [LimitManager.size, SizeCalculator.calculateSize, hrest]
  omega

/-- What is known of jobs and counters while a request is in a phase and all others are out. -/
def Phase.Holds (lm : LimitManager) (f : FSM) : Phase → Prop
  | .out => lm.Covers f
  | .readMemory m => lm.Covers f ∧ m = f.memoryUsage
  | .readBoth m c => lm.Covers f ∧ m = f.memoryUsage ∧ c = f.jobCount
  | .created size => f.jobs.total lm.size ≤ f.memoryUsage + size ∧
      f.jobs.keys.card ≤ f.jobCount + 1 ∧ InRange (f.memoryUsage + size) ∧ InRange (f.jobCount + 1)
  | .counted => f.jobs.total lm.size ≤ f.memoryUsage ∧ f.jobs.keys.card ≤ f.jobCount + 1 ∧
      InRange (f.jobCount + 1)

section Holds

variable {lm : LimitManager} {f f' : FSM}

lemma LimitManager.Within.of_sameJobs (h : lm.Within f) (hsame : f.SameJobs f') : lm.Within f' where
  jobCount := by rw [hsame.jobs]; exact h.jobCount
  memoryUsage := by rw [hsame.jobs]; exact h.memoryUsage

lemma LimitManager.Covers.of_sameJobs (h : lm.Covers f) (hsame : f.SameJobs f') : lm.Covers f' where
  jobCount := by rw [hsame.jobs, hsame.jobCount]; exact h.jobCount
  memoryUsage := by rw [hsame.jobs, hsame.memoryUsage]; exact h.memoryUsage

lemma Phase.Holds.of_sameJobs {g : Phase} (h : g.Holds lm f) (hsame : f.SameJobs f') :
    g.Holds lm f' := by
  cases g with
  | out => exact LimitManager.Covers.of_sameJobs h hsame
  | readMemory m => exact ⟨h.1.of_sameJobs hsame, h.2.trans hsame.memoryUsage.symm⟩
  | readBoth m c =>
    exact ⟨h.1.of_sameJobs hsame, h.2.1.trans hsame.memoryUsage.symm,
      h.2.2.trans hsame.jobCount.symm⟩
  | created size | counted =>
    simp only [Phase.Holds, hsame.jobs, hsame.memoryUsage, hsame.jobCount]
    exact h

/-- **The create step**: what was read is still there, so the new job has room. -/
lemma holds_createJob {job : Job} {m c : ℤ} (faults : ColdFaults)
    (h : (Phase.readBoth m c).Holds lm f) (hfits : InRange (f.memoryUsage + lm.size job))
    (hm : wrap64 (m + lm.size job) ≤ lm.memoryTracker.memoryLimit) (hc : c < lm.jobCounter.limit) :
    lm.Within (f.apply faults { type := .createJob, job := some job }).1 ∧
      (Phase.created (lm.size job)).Holds lm
        (f.apply faults { type := .createJob, job := some job }).1 := by
  obtain ⟨hcovers, rfl, rfl⟩ := h
  have htotal := Finmap.total_insert_le lm.size (fun _ => Int.natCast_nonneg _) f.jobs job.id job.wire
  have hcard := Finmap.card_keys_insert_le f.jobs job.id job.wire
  have hwire := lm.size_wire_le job
  have hmemory := hcovers.memoryUsage
  have hcount := hcovers.jobCount
  have hlimit := lm.jobCounter.inRange
  rw [wrap64_of_mem hfits] at hm
  unfold InRange at hlimit
  rw [FSM.apply_createJob]
  refine ⟨⟨?_, ?_⟩, ?_, ?_, hfits, ?_⟩
  · show ((f.jobs.insert job.id job.wire).keys.card : ℤ) ≤ lm.jobCounter.limit
    omega
  · show (f.jobs.insert job.id job.wire).total lm.size ≤ lm.memoryTracker.memoryLimit
    omega
  · show (f.jobs.insert job.id job.wire).total lm.size ≤ f.memoryUsage + lm.size job
    omega
  · show ((f.jobs.insert job.id job.wire).keys.card : ℤ) ≤ f.jobCount + 1
    omega
  · show InRange (f.jobCount + 1)
    unfold InRange
    omega

/-- A clamped addition that does not wrap falls short of nothing. -/
lemma le_addClamped {value delta : ℤ} (h : InRange (value + delta)) :
    value + delta ≤ FSM.addClamped value delta := by
  rw [FSM.addClamped, wrap64_of_mem h]
  exact le_max_right _ _

lemma holds_updateMemoryUsage {size : ℤ} (faults : ColdFaults) (hwithin : lm.Within f)
    (h : (Phase.created size).Holds lm f) :
    lm.Within (f.apply faults { type := .updateMemoryUsage, memoryDelta := size }).1 ∧
      Phase.counted.Holds lm
        (f.apply faults { type := .updateMemoryUsage, memoryDelta := size }).1 := by
  obtain ⟨htotal, hcard, hrange, hrange'⟩ := h
  exact ⟨⟨hwithin.jobCount, hwithin.memoryUsage⟩, htotal.trans (le_addClamped hrange), hcard, hrange'⟩

lemma holds_updateJobCount (faults : ColdFaults) (hwithin : lm.Within f)
    (h : Phase.counted.Holds lm f) :
    lm.Within (f.apply faults { type := .updateJobCount, jobCountDelta := 1 }).1 ∧
      Phase.out.Holds lm (f.apply faults { type := .updateJobCount, jobCountDelta := 1 }).1 := by
  obtain ⟨htotal, hcard, hrange⟩ := h
  exact ⟨⟨hwithin.jobCount, hwithin.memoryUsage⟩, hcard.trans (le_addClamped hrange), htotal⟩

end Holds

/-! ## All requests together -/

/-- The limits hold, and at most one request is in a phase. -/
structure Admitted (lm : LimitManager) (n : Node) (l : ℕ → Phase) : Prop where
  within : lm.Within n.fsm
  single : ∃ o, (∀ t, t ≠ o → l t = .out) ∧ (l o).Holds lm n.fsm

namespace Admitted

variable {lm : LimitManager} {n n' : Node} {l : ℕ → Phase} {tid : ℕ}

/-- A request that is in a phase is the only one. -/
lemma active (h : Admitted lm n l) (tid : ℕ) (hin : l tid ≠ .out) :
    (∀ t, t ≠ tid → l t = .out) ∧ (l tid).Holds lm n.fsm := by
  obtain ⟨o, hothers, hholds⟩ := h.single
  by_cases ho : tid = o
  · subst ho
    exact ⟨hothers, hholds⟩
  · exact absurd (hothers tid ho) hin

lemma covers (h : Admitted lm n l) (hout : ∀ t, l t = .out) : lm.Covers n.fsm := by
  obtain ⟨o, _, hholds⟩ := h.single
  rw [hout o] at hholds
  exact hholds

/-- The only request that is in a phase moves on. -/
lemma move {g : Phase} (hothers : ∀ t, t ≠ tid → l t = .out)
    (h : lm.Within n'.fsm ∧ g.Holds lm n'.fsm) : Admitted lm n' (Function.update l tid g) where
  within := h.1
  single := by
    refine ⟨tid, fun t ht => ?_, ?_⟩
    · rw [Function.update_of_ne ht]
      exact hothers t ht
    · rw [Function.update_self]
      exact h.2

lemma keep (h : Admitted lm n l) (hsame : n.fsm.SameJobs n'.fsm) :
    Admitted lm n' (Function.update l tid (l tid)) where
  within := h.within.of_sameJobs hsame
  single := by
    rw [Function.update_eq_self]
    obtain ⟨o, hothers, hholds⟩ := h.single
    exact ⟨o, hothers, hholds.of_sameJobs hsame⟩

end Admitted

/-- What is asked of every step. -/
def Orderly (lm : LimitManager) (c : Config Act Node) (tid : ℕ) (β : Type) (a : Act β) (e : Env) :
    Prop :=
  StableLeader c tid β a e ∧ Exclusive c tid β a e ∧ Fits lm c tid β a e

variable {lm : LimitManager}

/-- **One step of one request**, among requests that all go through their phases. -/
lemma admitted_step (c : Config Act Node) (l : ℕ → Phase) (tid : ℕ) {β : Type} (a : Act β) (e : Env)
    (Q : β → Phase → Prop) (hguard : Orderly lm c tid β a e) (h : Admitted lm c.state l)
    (hlocal : ∀ t, wpWith (Phase.admission lm) (c.threads t) (fun _ g => g = .out) (l t))
    (ha : Phase.admission lm β a Q (l tid)) :
    ∃ g, Q (handle tid β a e c.state).2 g ∧
      Admitted lm (handle tid β a e c.state).1 (Function.update l tid g) := by
  obtain ⟨⟨hleader, hcommit⟩, hexclusive, hfits⟩ := hguard
  have hsame := FSM.SameJobs.refl c.state.fsm
  cases a with
  | getMemoryUsage =>
    obtain ⟨htid, hQ⟩ := ha
    have hothers : ∀ t, t ≠ tid → l t = .out := fun t ht =>
      Phase.out_of_idle (hexclusive rfl t ht) (hlocal t)
    have hcovers := h.covers fun t => by
      by_cases ht : t = tid
      · rw [ht, htid]
      · exact hothers t ht
    rcases hQ c.state.fsm.memoryUsage with hout | hin
    · exact ⟨_, hout, .move hothers ⟨h.within, hcovers⟩⟩
    · exact ⟨_, hin, .move hothers ⟨h.within, hcovers, rfl⟩⟩
  | getJobCount =>
    obtain ⟨m, htid, hQ⟩ := ha
    obtain ⟨hothers, hholds⟩ := h.active tid (by simp [htid])
    rw [htid] at hholds
    rcases hQ c.state.fsm.jobCount with hout | hin
    · exact ⟨_, hout, .move hothers ⟨h.within, hholds.1⟩⟩
    · exact ⟨_, hin, .move hothers ⟨h.within, hholds.1, hholds.2, rfl⟩⟩
  | raftApply cmd =>
    have happly : handle tid _ (.raftApply cmd) e c.state
        = (c.state.applyCommand tid e.faults cmd, none) := by
      simp [handle, hcommit, Env.applies]
    rw [happly]
    rcases ha with ⟨hcmd, hQ⟩ | ⟨job, m, k, rfl, htid, hm, hk, hQ⟩ | ⟨size, rfl, htid, hQ⟩ |
      ⟨rfl, htid, hQ⟩
    · exact ⟨_, hQ, h.keep (FSM.sameJobs_apply hcmd c.state.fsm e.faults)⟩
    · obtain ⟨hothers, hholds⟩ := h.active tid (by simp [htid])
      rw [htid] at hholds
      exact ⟨_, hQ, .move hothers
        (holds_createJob e.faults hholds (hfits _ rfl rfl job rfl) hm hk)⟩
    · obtain ⟨hothers, hholds⟩ := h.active tid (by simp [htid])
      rw [htid] at hholds
      exact ⟨_, hQ, .move hothers (holds_updateMemoryUsage e.faults h.within hholds)⟩
    · obtain ⟨hothers, hholds⟩ := h.active tid (by simp [htid])
      rw [htid] at hholds
      exact ⟨_, hQ, .move hothers (holds_updateJobCount e.faults h.within hholds)⟩
  | isLeader =>
    refine ⟨l tid, ?_, h.keep hsame⟩
    show Q e.leader (l tid)
    rw [hleader]
    exact ha
  | queue f => exact ⟨l tid, ha c.state.queue, h.keep hsame⟩
  | statusChanged oldStatus newStatus => exact ⟨l tid, ha, h.keep hsame⟩
  | _ => exact ⟨l tid, ha _, h.keep hsame⟩

/-- Every thread handles one create request. -/
def requests (h : Handlers) (bodies : ℕ → Option CreateJobRequest) (t : ℕ) : Program Act Unit :=
  h.createJob (bodies t) >>= fun _ => pure ()

/-- **The limits hold** in every interleaving of create requests in which the memory usage is only
read while no other request is between its own reading and its last counter update. -/
theorem limits_hold (h : Handlers) (lm : LimitManager) (hlm : h.limitManager = some lm)
    (bodies : ℕ → Option CreateJobRequest) (n : Node) (sched : List (ℕ × Env))
    (hwithin : lm.Within n.fsm) (hcovers : lm.Covers n.fsm)
    (hstable : Along handle StableLeader ⟨n, requests h bodies⟩ sched)
    (hexclusive : Along handle Exclusive ⟨n, requests h bodies⟩ sched)
    (hfits : Along handle (Fits lm) ⟨n, requests h bodies⟩ sched) :
    lm.Within (run handle ⟨n, requests h bodies⟩ sched).state.fsm := by
  have hrequests : ∀ t, wpWith (Phase.admission lm) (requests h bodies t) (fun _ g => g = .out)
      .out := fun t => wpWith_bind.mpr (admission_createJob hlm (bodies t))
  obtain ⟨l, hadmitted, _⟩ := run_local (C := Orderly lm) (T := fun _ => Phase.admission lm)
    (R := fun _ g => g = .out) (I := Admitted lm) (c := ⟨n, requests h bodies⟩) (l := fun _ => .out)
    admitted_step
    ⟨hwithin, 0, fun _ _ => rfl, hcovers⟩ hrequests (hstable.and handle (hexclusive.and handle hfits))
  exact hadmitted.within

/-! ### Requests one after the other -/

lemma idle_of_all {α : Type} {p : Program Act α} (hp : All (Quiet Command.LeavesJobs) p) :
    Idle p := by
  induction p with
  | done a => trivial
  | step a k ih => exact Or.inr ⟨hp.1, fun b => ih b (hp.2 b)⟩

lemma idle_of_isDone {α : Type} {p : Program Act α} (hp : p.isDone = true) : Idle p := by
  cases p with
  | done a => trivial
  | step a k => cases hp

lemma Idle.bind {α β : Type} {p : Program Act α} (hp : Idle p) {f : α → Program Act β}
    (hf : ∀ a, Idle (f a)) : Idle (p >>= f) := by
  induction p with
  | done a => exact hf a
  | step a k ih =>
    rcases hp with hreads | ⟨hquiet, hrest⟩
    · exact Or.inl hreads
    · exact Or.inr ⟨hquiet, fun b => ih b (hrest b)⟩

lemma idle_createJob {h : Handlers} (hlm : h.limitManager = some lm)
    (body : Option CreateJobRequest) : Idle (h.createJob body) := by
  refine Or.inr ⟨trivial, fun leads => ?_⟩
  cases leads with
  | false => trivial
  | true =>
    cases body with
    | none => trivial
    | some req =>
      refine (idle_of_all (Handlers.all_toJob h.parsers req)).bind fun r => ?_
      cases r with
      | error err => trivial
      | ok job =>
        refine (idle_of_all (Handlers.all_validate trivial h.parsers job)).bind fun r => ?_
        cases r with
        | some err => trivial
        | none =>
          simp only [Handlers.checkCapacity, hlm]
          exact Or.inl rfl

/-- While one thread runs alone and the others are idle, readings are exclusive. -/
lemma along_exclusive {c : Config Act Node} {tid : ℕ} (hidle : ∀ t, t ≠ tid → Idle (c.threads t))
    (envs : List Env) : Along handle Exclusive c (envs.map fun e => (tid, e)) := by
  induction envs generalizing c with
  | nil => trivial
  | cons e envs ih =>
    refine ⟨fun β a k _ _ => hidle, ih fun t ht => ?_⟩
    rw [step_threads_of_ne handle c e ht]
    exact hidle t ht

instance (lm : LimitManager) (c : Config Act Node) (tid : ℕ) (β : Type) (a : Act β) (e : Env) :
    Decidable (Fits lm c tid β a e) :=
  inferInstanceAs (Decidable (∀ _ ∈ _, _))

instance (lm : LimitManager) (f : FSM) : Decidable (lm.Within f) :=
  decidable_of_iff ((f.jobs.keys.card : ℤ) ≤ lm.jobCounter.limit ∧
    f.jobs.total lm.size ≤ lm.memoryTracker.memoryLimit)
    ⟨fun h => ⟨h.1, h.2⟩, fun h => ⟨h.jobCount, h.memoryUsage⟩⟩

instance (lm : LimitManager) (f : FSM) : Decidable (lm.Covers f) :=
  decidable_of_iff (f.jobs.keys.card ≤ f.jobCount ∧ f.jobs.total lm.size ≤ f.memoryUsage)
    ⟨fun h => ⟨h.1, h.2⟩, fun h => ⟨h.jobCount, h.memoryUsage⟩⟩

/-- Requests for the jobs "a" and "b", then none. -/
def twoRequests : ℕ → Option CreateJobRequest
  | 0 => some (dueRequest none)
  | 1 => some { dueRequest none with id := "b" }
  | _ => none

/-- The first request in a row, then the second. -/
def inTurn : List (ℕ × Env) :=
  ((List.replicate 30 (Env.calm 0)).map fun e => (0, e))
    ++ (List.replicate 30 (Env.calm 0)).map fun e => (1, e)

/-- One step of either, in turn. -/
def alternating : List (ℕ × Env) := (List.range 60).map fun i => (i % 2, Env.calm 0)

lemma inTurn_exclusive :
    Along handle Exclusive ⟨freshNode, requests smallHandlers twoRequests⟩ inTurn := by
  have hidle : ∀ t, Idle (requests smallHandlers twoRequests t) := fun t =>
    (idle_createJob rfl (twoRequests t)).bind fun _ => trivial
  refine (along_exclusive (fun t _ => hidle t) _).append handle (along_exclusive (fun t ht => ?_) _)
  by_cases h0 : t = 0
  · subst h0
    exact idle_of_isDone (by decide +kernel)
  · rw [run_threads_of_ne handle _ h0]
    exact hidle t

/-- Two requests, one after the other, are both admitted. -/
theorem limits_hold_in_turn :
    smallLimits.Within
      (run handle ⟨freshNode, requests smallHandlers twoRequests⟩ inTurn).state.fsm ∧
    (run handle ⟨freshNode, requests smallHandlers twoRequests⟩
      inTurn).state.fsm.jobs.keys.card = 2 :=
  ⟨limits_hold smallHandlers smallLimits rfl twoRequests freshNode inTurn (by decide +kernel)
    (by decide +kernel) (along_stable (by decide +kernel) _) inTurn_exclusive
    (along_of_test handle (by decide +kernel)), by decide +kernel⟩

/-- A limit of one job and of 300 bytes. -/
def oneJob : LimitManager where
  memoryTracker := ⟨300, by decide⟩
  jobCounter := ⟨1, by decide⟩
  sizeCalculator := newSizeCalculator

/-- **Both limits are exceeded** when two requests read before either is counted. -/
theorem limits_exceeded :
    oneJob.Within freshNode.fsm ∧ oneJob.Covers freshNode.fsm ∧
    oneJob.jobCounter.limit <
      (run handle ⟨freshNode, requests { smallHandlers with limitManager := some oneJob }
        twoRequests⟩ alternating).state.fsm.jobs.keys.card ∧
    oneJob.memoryTracker.memoryLimit <
      (run handle ⟨freshNode, requests { smallHandlers with limitManager := some oneJob }
        twoRequests⟩ alternating).state.fsm.jobs.total oneJob.size := by
  decide +kernel

end ScheduledDb
