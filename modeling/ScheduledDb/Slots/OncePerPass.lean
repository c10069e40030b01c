import ScheduledDb.Slots.AttemptLimit
import ScheduledDb.Slots.Cancellation
import ScheduledDb.Slots.Dossiers
import ScheduledDb.Slots.Scheduling

/-!
# Once per pass

A pass copies the list of a slot's jobs before it executes them, and it removes them afterwards.
Whoever is listed twice in a slot is therefore handled twice: the webhook is started again unless
the first call completed the job, and a recurring job is created anew twice, with two entries.

* `one_webhook_per_pass`: on a stable leader no pass starts the webhook of a job twice, or gives it
  two new entries, exactly if each slot that the pass comes to has the job once, or not while it is
  due, or that it has it twice does not show (`HandlesOnce`).  The job may be listed in several
  slots: when the next one is read, it is gone, or has its next time.
* `two_webhooks_in_one_pass`: a recurring job that was created twice, whose webhook fails.

As long as the job is due, nothing has happened to it in the pass (`Within`).  What the applied
commands do to its entries is followed by `EntryLog`.
-/

namespace ScheduledDb

open Machine Program PersistentSlotQueue Worker ExecutionManager Env List

lemma webhooks_eq_count (n : Node) (jobID : String) :
    n.webhooks jobID = (n.called.map Job.id).count jobID := by
  rw [Node.webhooks, Node.called, count, countP_map, countP_filterMap]
  refine countP_congr fun x _ => ?_
  cases x.2 <;> simp [Event.isWebhook, Event.calledJob]

/-! ## Entries -/

namespace FSM

variable {f : FSM} {jobID : String}

/-- The job is in the store, and it is time for it. -/
def Due (f : FSM) (now : ℤ) (jobID : String) : Prop :=
  ∃ job, f.jobs.lookup jobID = some job ∧ Worker.shouldExecuteJob job now = true

/-- The job is listed no more often than in a slot there is under the same key. -/
def ListsNoMore (f : FSM) (jobID : String) (slot : SlotData) : Prop :=
  jobID ∉ slot.jobIDs ∨ ∃ tier found, f.slotAt tier slot.key = some found ∧
    slot.jobIDs.count jobID ≤ found.jobIDs.count jobID

/-- The slot is one of the job alone, or one there is with the job at its end. -/
def ListsNext (f : FSM) (jobID : String) (slot : SlotData) : Prop :=
  slot.jobIDs = [jobID] ∨ ∃ tier found, f.slotAt tier slot.key = some found ∧
    slot.jobIDs = found.jobIDs ++ [jobID]

/-- The command does not create the job, and adds no entry of it. -/
def NoEntry (f : FSM) (jobID : String) (cmd : Command) : Prop :=
  match cmd.type with
  | .createJob => ∀ job ∈ cmd.job, job.id ≠ jobID
  | .createSlot => ∀ slot ∈ cmd.slot, f.ListsNoMore jobID slot
  | .archiveSlot => False
  | .unarchiveSlot => False
  | _ => True

lemma noEntry_of_leaves {cmd : Command} (hjobs : cmd.LeavesJobs) (hslots : cmd.LeavesSlots) :
    f.NoEntry jobID cmd := by
  unfold NoEntry
  split
  · next htype => simp [Command.LeavesJobs, htype] at hjobs
  · next htype => simp [Command.LeavesSlots, htype] at hslots
  · next htype => simp [Command.LeavesSlots, htype] at hslots
  · next htype => simp [Command.LeavesSlots, htype] at hslots
  · trivial

/-- Taking an entry out adds none. -/
lemma noEntry_shrinkCommand (hfiled : f.Filed) {tier : Tier} {key : ℤ} {slotData : SlotData}
    (hslot : f.slotAt tier key = some slotData) (id : String) :
    f.NoEntry jobID (shrinkCommand key (without slotData id)) := by
  unfold shrinkCommand
  split_ifs
  · trivial
  · rintro slot ⟨⟩
    have hkey : slotData.key = key := hfiled.slotAt hslot
    refine Or.inr ⟨tier, slotData, ?_, (erase_sublist).count_le jobID⟩
    exact hkey.symm ▸ hslot

lemma listsNext_extendSlot (hfiled : f.Filed) (key gap : ℤ) (id : String) (readFails : Bool) :
    f.ListsNext id (extendSlot (f.getSlot key readFails) key gap id) := by
  have hkey := extendSlot_key hfiled key gap id readFails
  unfold ListsNext
  rw [hkey]
  cases hslot : f.getSlot key readFails with
  | none => exact Or.inl rfl
  | some slotData =>
    obtain ⟨tier, htier⟩ := exists_slotAt_of_getSlot hslot
    exact Or.inr ⟨tier, slotData, htier, rfl⟩

/-- An entry of another job. -/
lemma listsNoMore_extendSlot (hfiled : f.Filed) (key gap : ℤ) {id : String} (hne : id ≠ jobID)
    (readFails : Bool) : f.ListsNoMore jobID (extendSlot (f.getSlot key readFails) key gap id) := by
  have hone : [id].count jobID = 0 := count_eq_zero_of_not_mem (by simpa using hne.symm)
  rcases listsNext_extendSlot hfiled key gap id readFails with hids | ⟨tier, found, hfound, hids⟩
  · refine Or.inl ?_
    rw [hids]
    simpa using hne.symm
  · refine Or.inr ⟨tier, found, hfound, ?_⟩
    rw [hids, count_append, hone, Nat.add_zero]

end FSM

/-- Commands, each with the state it found, in which the job gets a number of new entries.  It is
created so many times, and each time its id is then added at the end of the slot of its time. -/
inductive SlotEntries (gap : ℤ) (jobID : String) : List (FSM × Command) → ℕ → Prop where
  | nil : SlotEntries gap jobID [] 0
  | other {l : List (FSM × Command)} {k : ℕ} {f : FSM} {cmd : Command} :
      SlotEntries gap jobID l k → f.NoEntry jobID cmd → SlotEntries gap jobID (l ++ [(f, cmd)]) k
  | entry {l : List (FSM × Command)} {k : ℕ} {f f' : FSM} {job : Job} {t : ℤ} {slot : SlotData} :
      SlotEntries gap jobID l k → job.id = jobID → job.dueTime = some t → slot.key = t.tdiv gap →
      f'.ListsNext jobID slot →
      SlotEntries gap jobID (l ++ [(f, { type := .createJob, job := some job }),
        (f', { type := .createSlot, slot := some slot })]) (k + 1)

/-- So often the job is created. -/
lemma SlotEntries.countP_eq {gap : ℤ} {jobID : String} {l : List (FSM × Command)} {k : ℕ}
    (h : SlotEntries gap jobID l k) : l.countP (fun x => x.2.creates jobID) = k := by
  induction h with
  | nil => rfl
  | @other l k f cmd _ hcmd ih =>
    have hnot : cmd.creates jobID = false := by
      unfold Command.creates
      split
      next job htype hjob =>
        simp only [FSM.NoEntry, htype] at hcmd
        exact decide_eq_false (hcmd job hjob)
      next => rfl
    simp [ih, hnot]
  | entry _ hid _ _ _ ih =>
    rw [countP_append, ih]
    simp [Command.creates, hid]

/-- The job has got so many entries since the commands `l0`. -/
structure EntryLog (gap : ℤ) (jobID : String) (l0 : List (FSM × Command)) (k : ℕ) (f : FSM)
    (l : List (FSM × Command)) : Prop where
  filed : f.Filed
  entries : ∃ l', l = l0 ++ l' ∧ SlotEntries gap jobID l' k

namespace EntryLog

variable {gap : ℤ} {jobID : String} {l0 l : List (FSM × Command)} {k : ℕ} {f : FSM}
  {n : Node}

/-- A command that adds no entry leaves their number. -/
lemma apply (h : EntryLog gap jobID l0 k f l) {cmd : Command} (hcmd : f.NoEntry jobID cmd)
    (faults : ColdFaults) : EntryLog gap jobID l0 k (f.apply faults cmd).1 (l ++ [(f, cmd)]) := by
  obtain ⟨hfiled, l', rfl, hentries⟩ := h
  refine ⟨hfiled.apply faults cmd, l' ++ [(f, cmd)], ?_, hentries.other hcmd⟩
  rw [append_assoc]

/-- The job is created, and listed in the slot of its time. -/
lemma enter (h : EntryLog gap jobID l0 k f l) {job : Job} (hid : job.id = jobID) {t : ℤ}
    (hdue : job.dueTime = some t) (f' : FSM) (hfiled : f'.Filed) {slot : SlotData}
    (hkey : slot.key = t.tdiv gap) (hnext : f'.ListsNext jobID slot) (faults : ColdFaults) :
    EntryLog gap jobID l0 (k + 1)
      (f'.apply faults { type := .createSlot, slot := some slot }).1
      (l ++ [(f, { type := .createJob, job := some job })]
        ++ [(f', { type := .createSlot, slot := some slot })]) := by
  obtain ⟨-, l', rfl, hentries⟩ := h
  have hentries' : SlotEntries gap jobID (l' ++ [(f, { type := .createJob, job := some job }),
      (f', { type := .createSlot, slot := some slot })]) (k + 1) :=
    hentries.entry hid hdue hkey hnext
  exact ⟨hfiled.apply faults _, _, by simp, hentries'⟩

lemma takesOut (h : Watched gap (EntryLog gap jobID l0 k) n) (id : String) :
    TakesOut (EntryLog gap jobID l0 k) id n :=
  fun _ _ _ faults hslot => h.1.apply (FSM.noEntry_shrinkCommand h.1.filed hslot id) faults

/-! ### The phases of a pass -/

lemma wp_getNextSlot (h : Watched gap (EntryLog gap jobID l0 k) n) :
    wp (handle 0) Stable getNextSlot
      (fun slot n' => Watched gap (EntryLog gap jobID l0 k) n' ∧ n'.called = n.called ∧
        n.fsm.SameJobs n'.fsm ∧ ∀ s, slot = some s → FromSlot n' s) n := by
  have hlog := watch_getNextSlot
    (fun n' key faults h' => h'.1.apply (by trivial) faults) h
  exact wpWith_and (wp_of_watch hlog)
    (wpWith_and (wpWith_called all_getNextSlot n) (wpWith_getNextSlot n))

lemma wp_execute (em : ExecutionManager) (job : Job) (h : Watched gap (EntryLog gap jobID l0 k) n) :
    wp (handle 0) Stable (em.execute job)
      (fun _ => Watched gap (EntryLog gap jobID l0 k)) n := by
  refine (em.sidelined_execute job).invariant (fun a e n' ha _ hn' => ?_) h
  by_cases hsilent : Silent _ a
  · exact hn'.of_unwritten ((Node.Unwritten.refl n').handle hsilent e)
  · cases a with
    | raftApply cmd =>
      simp only [handle]
      split_ifs
      · exact hn'.applyCommand (hn'.1.apply (FSM.noEntry_of_leaves ha.1 ha.2) e.faults)
      · exact hn'
    | queue f => exact ha.elim
    | _ => exact absurd trivial hsilent

lemma wp_removeExecuted (id : String) (h : Watched gap (EntryLog gap jobID l0 k) n) :
    wp (handle 0) Stable (removeExecuted id)
      (fun _ => Watched gap (EntryLog gap jobID l0 k)) n :=
  wp_of_watch (watch_removeExecuted (h.1.filed.jobs id)
    (fun faults => h.1.apply (by trivial) faults) (fun _ h' => takesOut h' id) h)

/-- The job gets its entry, or another job does. -/
lemma wp_reschedule {job : Job} {t : ℤ} (hdue : job.dueTime = some t)
    (h : Watched gap (EntryLog gap jobID l0 k) n) :
    wp (handle 0) Stable (reschedule job)
      (fun _ => Watched gap (EntryLog gap jobID l0 (if job.id = jobID then k + 1 else k))) n := by
  refine Store.wpWith_ifLeader (fun _ _ _ he => he) (wpWith_bind.mpr
    (Store.wpWith_propose (fun _ _ _ he => he) fun e _ => wpWith_bind.mpr
      (wpWith_handler (fun _ _ _ he => he) ?_)))
  have hgap : seconds (n.applyCommand 0 e.faults
      { type := .createJob, job := some job }).queue.slotGap = gap := h.2
  change wp (handle 0) Stable (addJob job) _ _
  refine wp_addJob_write hdue hgap fun n' readFails faults cmd hcmd hfsm happlied hgap' =>
    ⟨?_, hgap'⟩
  rw [Node.appliedCommands_applyCommand] at happlied
  rw [Node.applyCommand_fsm] at hcmd hfsm happlied
  have hfiled := h.1.filed.apply e.faults { type := .createJob, job := some job }
  rw [hfsm, happlied]
  subst hcmd
  split_ifs with hid
  · refine h.1.enter hid hdue _ hfiled (FSM.extendSlot_key hfiled _ _ _ _) ?_ faults
    exact hid ▸ FSM.listsNext_extendSlot hfiled _ _ _ _
  · have hcreate : n.fsm.NoEntry jobID { type := .createJob, job := some job } := by
      rintro _ ⟨⟩
      exact hid
    have hslot := FSM.listsNoMore_extendSlot hfiled (t.tdiv gap) gap hid readFails
    refine (h.1.apply hcreate e.faults).apply ?_ faults
    rintro _ ⟨⟩
    exact hslot

lemma wp_rescheduleAll {jobs : List Job} (hdue : ∀ job ∈ jobs, ∃ t, job.dueTime = some t)
    (h : Watched gap (EntryLog gap jobID l0 k) n) :
    wp (handle 0) Stable (forEach jobs reschedule)
      (fun _ => Watched gap (EntryLog gap jobID l0 (k + (jobs.map Job.id).count jobID))) n := by
  induction jobs generalizing n k with
  | nil => exact h
  | cons job jobs ih =>
    obtain ⟨t, ht⟩ := hdue job mem_cons_self
    refine wp_seq (wp_reschedule ht h) fun _ n1 h1 => ?_
    have hk : k + ((job :: jobs).map Job.id).count jobID
        = (if job.id = jobID then k + 1 else k) + (jobs.map Job.id).count jobID := by
      rw [map_cons, count_cons]
      by_cases hid : job.id = jobID
      · simp only [hid, beq_self_eq_true, if_true]
        omega
      · simp [hid]
    rw [hk]
    exact ih (fun job' hjob' => hdue job' (mem_cons_of_mem job hjob')) h1

end EntryLog

/-! ## The jobs of a slot -/

section Slot

variable {w : Worker} {now gap : ℤ} {jobID : String} {n : Node} {s : Slot} {job : Job}
  {l0 : List (FSM × Command)} {k : ℕ}

/-- How often the job is among these while it is due. -/
def dueCount (now : ℤ) (jobID : String) (jobs : List Job) : ℕ :=
  ((due now jobs).map Job.id).count jobID

/-- How often it is created anew. -/
def newCount (w : Worker) (now : ℤ) (jobID : String) (jobs : List Job) : ℕ :=
  (((due now jobs).filterMap (w.renewed now)).map Job.id).count jobID

lemma newCount_le (w : Worker) (now : ℤ) (jobID : String) (jobs : List Job) :
    newCount w now jobID jobs ≤ dueCount now jobID jobs :=
  (w.map_id_renewed_sublist now _).count_le jobID

/-- The jobs of a slot that have the id are the job in the store. -/
lemma PersistentSlotQueue.FromSlot.eq_of_id (hslot : FromSlot n s) (hfiled : n.fsm.Filed)
    (hjob : n.fsm.jobs.lookup jobID = some job) : ∀ job' ∈ s.jobs, job'.id = jobID → job' = job := by
  intro job' hjob' hid
  have hlookup := hslot.lookup hfiled hjob'
  rw [hid, hjob] at hlookup
  exact (Option.some.inj hlookup).symm

lemma PersistentSlotQueue.FromSlot.due (hslot : FromSlot n s) (hfiled : n.fsm.Filed)
    (hcount : 0 < dueCount now jobID s.jobs) : n.fsm.Due now jobID := by
  obtain ⟨job, hjob, rfl⟩ := mem_map.mp (count_pos_iff.mp hcount)
  obtain ⟨hjob, hdue⟩ := mem_filter.mp hjob
  exact ⟨job, hslot.lookup hfiled hjob, hdue⟩

lemma webhooks_eq_add {n' : Node} {l : List Job} (hl : n'.called = n.called ++ l) :
    n'.webhooks jobID = n.webhooks jobID + (l.map Job.id).count jobID := by
  rw [webhooks_eq_count, webhooks_eq_count, hl, map_append, count_append]

lemma webhooks_of_called {n' : Node} (h : n'.called = n.called) :
    n'.webhooks jobID = n.webhooks jobID := by
  rw [webhooks_eq_count, h, ← webhooks_eq_count]

/-- The entries that come with one slot. -/
lemma EntryLog.wp_processSlot (h : Watched gap (EntryLog gap jobID l0 k) n) :
    wp (handle 0) Stable (w.processSlot now s)
      (fun _ => Watched gap (EntryLog gap jobID l0 (k + newCount w now jobID s.jobs))) n := by
  refine wp_seq (w.wpWith_processJobs now s.jobs
    (fun job _ _ h' => wp_execute w.executionManager job h') {} h) ?_
  rintro round n1 ⟨h1, hnoted, -⟩
  have hrescheduled : round.jobsToReschedule
      = (Worker.due now s.jobs).filterMap (w.renewed now) := hnoted.rescheduled
  refine wp_seq (wp_forEach round.jobsToRemove
    (fun id _ n' h' => wp_removeExecuted id h') h1) fun _ n2 h2 => ?_
  have hdueTime : ∀ job ∈ round.jobsToReschedule, ∃ t, job.dueTime = some t := by
    intro job hjob
    rw [hrescheduled] at hjob
    obtain ⟨old, -, hold⟩ := mem_filterMap.mp hjob
    obtain ⟨htype, -, rfl⟩ := renewed_eq_some hold
    exact ⟨w.calculateNextExecution old now, by simp [Job.dueTime, htype]⟩
  refine wp_seq (wp_rescheduleAll hdueTime h2) fun _ n3 h3 => ?_
  rwa [hrescheduled] at h3

/-- **One slot**: the entries, the calls, and whether the job is due afterwards. -/
lemma wp_processSlot_job (hcron : w.CronAdvances) (hid : jobID ≠ "")
    (h : Watched gap (EntryLog gap jobID l0 k) n) :
    wp (handle 0) Stable (w.processSlot now s)
      (fun _ n' => Watched gap (EntryLog gap jobID l0 (k + newCount w now jobID s.jobs)) n' ∧
        (∃ c ≤ dueCount now jobID s.jobs, n'.webhooks jobID = n.webhooks jobID + c) ∧
        (n'.fsm.Due now jobID → n.fsm.Due now jobID ∧ dueCount now jobID s.jobs = 0)) n := by
  refine wp_mono (wpWith_and (EntryLog.wp_processSlot h) (w.wp_processSlot now s n)) ?_
  rintro _ n' ⟨hlog, ⟨l, hl, hsub⟩, hlookup⟩
  refine ⟨hlog, ⟨_, (hsub.map Job.id).count_le jobID, webhooks_eq_add hl⟩, ?_⟩
  rintro ⟨job, hjob, hdue⟩
  rcases hlookup jobID job hjob with ⟨hold, hnot⟩ | ⟨old, -, job', hrenewed, -, rfl⟩
  · exact ⟨⟨job, hold, hdue⟩, count_eq_zero_of_not_mem fun hmem => hid (hnot hmem)⟩
  · simp [hcron.not_due hrenewed] at hdue

end Slot

/-! ## Executing a job twice -/

section Twice

variable {w : Worker} {now : ℤ} {jobID : String} {n : Node} {d : Dossier} {ok : Env → Prop}
  {jobs : List Job}

/-- The webhook is called again if the first call fails. -/
def Dossier.CalledAgain (w : Worker) (d : Dossier) : Prop :=
  d.job.webhookURL ≠ "" ∧ StatusTracker.executable d.status = .ok true ∧
    d.attemptCount + 2 ≤ w.executionManager.maxAttempts

/-- Executing another job. -/
lemma wp_execute_other (em : ExecutionManager) {job : Job} (hne : job.id ≠ jobID) :
    wp (handle 0) ok (em.execute job)
      (fun _ n' => n'.webhooks jobID = n.webhooks jobID ∧
        n'.fsm.dossier jobID = n.fsm.dossier jobID) n := by
  refine wp_mono (wpWith_and (em.wpWith_called_execute job n) (em.wp_execute_others job n)) ?_
  rintro _ n' ⟨⟨l, hl, hsub⟩, hothers⟩
  have hzero : (l.map Job.id).count jobID = 0 :=
    count_eq_zero_of_not_mem fun hmem =>
      hne (mem_singleton.mp ((hsub.map Job.id).subset hmem)).symm
  exact ⟨by rw [webhooks_eq_add hl, hzero, Nat.add_zero], hothers jobID hne.symm⟩

/-- **A job that is not called again** is called once at most, however often it is listed. -/
lemma wp_processJobs_once (hok : ∀ e, ok e → e.Stable) (hd : n.fsm.dossier jobID = some d)
    (hjobs : ∀ job ∈ jobs, job.id = jobID → job = d.job) (hagain : ¬ d.CalledAgain w) :
    wp (handle 0) ok (foldEach jobs (w.processJob now) {})
      (fun _ n' => n'.webhooks jobID ≤ n.webhooks jobID + 1) n := by
  -- nothing has happened yet, or the job was called and is not started again
  let I : Node → Prop := fun n' =>
    n'.webhooks jobID = n.webhooks jobID ∧ n'.fsm.dossier jobID = some d ∨
      n'.webhooks jobID ≤ n.webhooks jobID + 1 ∧
        ∃ d', n'.fsm.dossier jobID = some d' ∧ ¬ w.executionManager.Starts d'
  have hI : ∀ job ∈ jobs, ∀ n', I n' →
      wp (handle 0) ok (w.executionManager.execute job) (fun _ => I) n' := by
    intro job hjob n' hn'
    by_cases hid : job.id = jobID
    · obtain rfl := hjobs job hjob hid
      subst hid
      have hidle : ∀ d', n'.fsm.dossier d.job.id = some d' → ¬ w.executionManager.Starts d' →
          wp (handle 0) ok (w.executionManager.execute d.job) (fun _ => I) n' := fun d' hd' hnot =>
        wp_mono (w.executionManager.wp_execute_idle hd' hnot) fun _ n'' h'' => h'' ▸ hn'
      rcases hn' with ⟨hcalls, hd'⟩ | ⟨-, d', hd', hnot⟩
      · by_cases hstarts : w.executionManager.Starts d
        · refine wp_mono (w.executionManager.wp_execute_started hok hd' hstarts) ?_
          rintro _ n'' ⟨hcalled, e, -, hd''⟩
          refine Or.inr ⟨by simp [webhooks_eq_add hcalled, hcalls], _, hd'', fun hagain' => ?_⟩
          -- the call failed, so there is a URL, and no attempt is left
          obtain ⟨hexec, hleft⟩ := hagain'
          refine hagain ⟨fun hurl => ?_, hstarts.1, by simp only at hleft; omega⟩
          simp [ended, webhookResult, hurl,
            StatusTracker.executable] at hexec
        · exact hidle d hd' hstarts
      · exact hidle d' hd' hnot
    · refine wp_mono (wp_execute_other w.executionManager hid) ?_
      rintro _ n'' ⟨hcalls, hd''⟩
      simp only [I] at hn' ⊢
      rwa [hcalls, hd'']
  refine wp_mono (w.wpWith_processJobs now jobs hI {} (Or.inl ⟨rfl, hd⟩)) ?_
  rintro _ n' ⟨⟨hcalls, -⟩ | ⟨hcalls, -⟩, -⟩
  · exact hcalls.trans_le (Nat.le_succ _)
  · exact hcalls

/-- A leader whose webhook calls are answered with status 500. -/
def failingAt (now : ℤ) : Env where
  now := now
  webhook := .response 500 0

/-- A stable leader whose webhook calls are all answered with status 500. -/
def Failing (e : Env) : Prop := e.Stable ∧ e.webhook = .response 500 0

/-- Calls are never taken back. -/
lemma wpWith_trace {thread : ℕ} {guard : ∀ β : Type, Act β → Env → Node → Prop} {α : Type}
    (p : Program Act α) (n : Node) :
    wpWith (demonic (handle thread) guard) p (fun _ n' => n.trace <+: n'.trace) n := by
  refine (all_true (p := p)).invariant (fun a e n' _ _ hn' => hn'.trans ?_) (prefix_refl _)
  rw [handle_trace]
  exact prefix_append _ _

lemma webhooks_mono (jobID : String) {n' : Node} (h : n.trace <+: n'.trace) :
    n.webhooks jobID ≤ n'.webhooks jobID :=
  h.sublist.countP_le

/-- **While its calls fail, the job is called again**, as often as it is listed and has attempts. -/
lemma wp_processJobs_failing {k : ℕ} (hd : n.fsm.dossier jobID = some d)
    (hurl : d.job.webhookURL ≠ "") (hjobs : ∀ job ∈ jobs, job.id = jobID → job = d.job)
    (hk : k ≤ dueCount now jobID jobs) (hexec : StatusTracker.executable d.status = .ok true)
    (hleft : d.attemptCount + k ≤ w.executionManager.maxAttempts) (round : Round) :
    wp (handle 0) Failing (foldEach jobs (w.processJob now) round)
      (fun _ n' => n.webhooks jobID + k ≤ n'.webhooks jobID) n := by
  induction jobs generalizing n d k round with
  | nil =>
    obtain rfl : k = 0 := Nat.le_zero.mp hk
    exact le_refl _
  | cons job jobs ih =>
    obtain ⟨hfirst, hrest⟩ := forall_mem_cons.mp hjobs
    cases k with
    | zero => exact wp_mono (wpWith_trace _ n) fun _ _ h' => webhooks_mono jobID h'
    | succ k =>
    refine wp_bind.mpr (wp_ite.mpr ⟨fun hdue => wp_bind.mpr ?_, fun hnot => ?_⟩)
    · rw [dueCount, due_cons, if_pos hdue, map_cons, count_cons] at hk
      by_cases hid : job.id = jobID
      · obtain rfl := hfirst hid
        subst hid
        have hstarts : w.executionManager.Starts d := ⟨hexec, by push_cast at hleft; omega⟩
        refine wp_mono (w.executionManager.wp_execute_started (fun _ he => he.1) hd hstarts) ?_
        rintro _ n1 ⟨hcalled, e, ⟨-, he⟩, hd1⟩
        have hended : ended d.job e.webhook = .failed := by
          simp [ended, webhookResult, hurl, he]
        rw [hended] at hd1
        rw [pure_eq, wp_done]
        refine wp_mono (ih hd1 hurl hrest (by simpa [dueCount] using hk) rfl
          (by push_cast at hleft ⊢; omega) _)
          fun _ n2 h2 => ?_
        rw [webhooks_eq_add hcalled] at h2
        simp at h2
        omega
      · refine wp_mono (wp_execute_other w.executionManager hid) ?_
        rintro _ n1 ⟨hcalls, hd1⟩
        rw [← hcalls]
        exact ih (hd1.trans hd) hurl hrest (by simpa [dueCount, hid] using hk) hexec hleft _
    · rw [dueCount, due_cons, if_neg hnot] at hk
      exact ih hd hurl hrest hk hexec hleft _

end Twice

/-! ## The slots that a pass comes to -/

/-- The slot has the job once, if it has it while it is due, or else that it has it twice does not
show: it is not created anew, and not called again. -/
def HandlesOnce (w : Worker) (now : ℤ) (jobID : String) (m : Node) (s : Slot) : Prop :=
  newCount w now jobID s.jobs ≤ 1 ∧
    (1 < dueCount now jobID s.jobs → ∀ d, m.fsm.dossier jobID = some d → ¬ d.CalledAgain w)

/-- Whatever slot a pass comes to on a stable leader, with so many more slots to check, has the
property in the state in which it is processed. -/
def ComesOnlyTo (w : Worker) (now : ℤ) (C : Node → Slot → Prop) : ℕ → Node → Prop
  | 0, _ => True
  | left + 1, n =>
    wp (handle workerThread) Env.Stable getNextSlot
      (fun slot m => ∀ s, slot = some s → s.minTime ≤ now →
        C m s ∧ wp (handle workerThread) Env.Stable (w.processSlot now s)
          (fun goOn n' => goOn = true → ComesOnlyTo w now C left n') m) n

/-! ## The pass -/

section Pass

variable {w : Worker} {now gap : ℤ} {jobID : String} {n0 n : Node} {s : Slot}
  {l0 : List (FSM × Command)} {k : ℕ}

/-- The pass that began in `n0` has handled the job once at most, and not at all as long as the job
is due. -/
def Within (gap now : ℤ) (jobID : String) (n0 n : Node) : Prop :=
  ∃ k ≤ 1, Watched gap (EntryLog gap jobID n0.appliedCommands k) n ∧
    n.webhooks jobID ≤ n0.webhooks jobID + 1 ∧
    (n.fsm.Due now jobID → k = 0 ∧ n.webhooks jobID = n0.webhooks jobID)

lemma EntryLog.start (jobID : String) (hfiled : n.fsm.Filed) : Watched (seconds n.queue.slotGap)
    (EntryLog (seconds n.queue.slotGap) jobID n.appliedCommands 0) n :=
  ⟨⟨hfiled, [], (append_nil _).symm, .nil⟩, rfl⟩

/-- Getting the next slot changes nothing about the job. -/
lemma wp_getNextSlot_within (h : Within gap now jobID n0 n) :
    wp (handle 0) Stable getNextSlot
      (fun slot n' => Within gap now jobID n0 n' ∧ ∀ s, slot = some s → FromSlot n' s) n := by
  obtain ⟨k, hk, hlog, hcalls, hfresh⟩ := h
  refine wp_mono (EntryLog.wp_getNextSlot hlog) ?_
  rintro slot n' ⟨hlog', hcalled, hsame, hslot⟩
  refine ⟨⟨k, hk, hlog', ?_⟩, hslot⟩
  rw [webhooks_of_called hcalled, FSM.Due, hsame.jobs]
  exact ⟨hcalls, hfresh⟩

/-- **A slot that handles the job once** calls it once at most. -/
lemma HandlesOnce.wp_processSlot (hfiled : n.fsm.Filed) (hslot : FromSlot n s)
    (honce : HandlesOnce w now jobID n s) :
    wp (handle 0) Stable (w.processSlot now s)
      (fun _ n' => n'.webhooks jobID ≤ n.webhooks jobID + 1) n := by
  by_cases hcount : 1 < dueCount now jobID s.jobs
  · obtain ⟨job, hjob, -⟩ := hslot.due hfiled (Nat.zero_lt_one.trans hcount)
    have hd := FSM.dossier_of_lookup hjob
    refine wp_seq (wp_processJobs_once (fun _ he => he) hd
      (hslot.eq_of_id hfiled hjob) (honce.2 hcount _ hd)) fun round n1 h1 => ?_
    have hquiet : All (Quiet fun _ => True) (forEach round.jobsToRemove removeExecuted >>=
        fun _ => forEach round.jobsToReschedule reschedule >>=
        fun _ => pure !(!round.anyJobExecuted && round.hasJobsNotReady)) :=
      (all_forEach fun id _ => all_removeExecuted (fun _ _ => trivial) trivial).bind
        fun _ => (all_forEach fun job _ => all_reschedule (fun _ _ => trivial) trivial).bind
        fun _ => trivial
    exact wp_mono (wpWith_called hquiet n1) fun _ n' h' => (webhooks_of_called h').trans_le h1
  · refine wp_mono (w.wp_processSlot now s n) ?_
    rintro _ n' ⟨⟨l, hl, hsub⟩, -⟩
    rw [webhooks_eq_add hl]
    exact Nat.add_le_add_left (((hsub.map Job.id).count_le jobID).trans (not_lt.mp hcount)) _

lemma wp_processSlot_within (hcron : w.CronAdvances) (hid : jobID ≠ "") (hslot : FromSlot n s)
    (honce : HandlesOnce w now jobID n s) (h : Within gap now jobID n0 n) :
    wp (handle 0) Stable (w.processSlot now s) (fun _ => Within gap now jobID n0) n := by
  obtain ⟨k, hk, hlog, hcalls, hfresh⟩ := h
  refine wp_mono (wpWith_and (wp_processSlot_job hcron hid hlog)
    (honce.wp_processSlot hlog.1.filed hslot)) ?_
  rintro _ n' ⟨⟨hlog', ⟨c, hc, hcalls'⟩, hdue'⟩, honceCalled⟩
  have hle := newCount_le w now jobID s.jobs
  have hnew := honce.1
  by_cases hdue : n.fsm.Due now jobID
  · obtain ⟨rfl, hnone⟩ := hfresh hdue
    refine ⟨_, by omega, hlog', by omega, fun h' => ?_⟩
    have := (hdue' h').2
    exact ⟨by omega, by omega⟩
  · have hzero : dueCount now jobID s.jobs = 0 := by
      by_contra hpos
      exact hdue (hslot.due hlog.1.filed (Nat.pos_of_ne_zero hpos))
    exact ⟨_, by omega, hlog', by omega, fun h' => absurd (hdue' h').1 hdue⟩

/-- **The condition is enough.** -/
lemma wp_processLoop_within (hcron : w.CronAdvances) (hid : jobID ≠ "") (left : ℕ)
    (hcomes : ComesOnlyTo w now (HandlesOnce w now jobID) left n) (h : Within gap now jobID n0 n) :
    wp (handle 0) Stable (w.processLoop now left) (fun _ => Within gap now jobID n0) n := by
  induction left generalizing n with
  | zero => exact h
  | succ left ih =>
    refine wp_seq (wpWith_and hcomes (wp_getNextSlot_within h)) ?_
    rintro slot m ⟨hcomes, h, hslot⟩
    cases slot with
    | none => exact h
    | some s =>
    refine wp_ite.mpr ⟨fun _ => h, fun hready => wp_bind.mpr ?_⟩
    obtain ⟨honce, hrest⟩ := hcomes s rfl (not_lt.mp hready)
    refine wp_mono (wpWith_and hrest (wp_processSlot_within hcron hid (hslot s rfl) honce h)) ?_
    exact fun goOn n' h' => wp_ite.mpr ⟨fun hgo => ih (h'.1 hgo) h'.2, fun _ => h'.2⟩

/-- However often a job is listed that is not due yet, the pass leaves it alone. -/
lemma comesOnlyTo_of_not_due (hcron : w.CronAdvances) (hid : jobID ≠ "") (left : ℕ)
    (h : Watched gap (EntryLog gap jobID l0 k) n) (hnot : ¬ n.fsm.Due now jobID) :
    ComesOnlyTo w now (HandlesOnce w now jobID) left n := by
  induction left generalizing n k with
  | zero => trivial
  | succ left ih =>
    refine wp_mono (EntryLog.wp_getNextSlot h) ?_
    rintro slot m ⟨hlog, -, hsame, hslot⟩ s rfl _
    have hnot' : ¬ m.fsm.Due now jobID := by rwa [FSM.Due, hsame.jobs]
    have hzero : ¬ 0 < dueCount now jobID s.jobs := fun hpos =>
      hnot' ((hslot s rfl).due hlog.1.filed hpos)
    have hle := newCount_le w now jobID s.jobs
    refine ⟨⟨by omega, fun h' => absurd (Nat.zero_lt_one.trans h') hzero⟩, ?_⟩
    refine wp_mono (wp_processSlot_job hcron hid hlog) ?_
    rintro _ n' ⟨hlog', -, hdue'⟩ _
    exact ih hlog' fun h' => hnot' (hdue' h').1

end Pass

/-- What one pass may do: start the webhook once, and add the job to one slot entry. -/
def AtMostOnce (jobID : String) (n n' : Node) : Prop :=
  n'.webhooks jobID ≤ n.webhooks jobID + 1 ∧
    ∃ l, n'.appliedCommands = n.appliedCommands ++ l ∧
      ∃ k ≤ 1, SlotEntries (seconds n.queue.slotGap) jobID l k

section Converse

variable {w : Worker} {now gap : ℤ} {jobID : String} {n0 n m : Node} {s : Slot}

/-- How often the job was created. -/
def Node.created (n : Node) (jobID : String) : ℕ :=
  n.appliedCommands.countP fun x => x.2.creates jobID

lemma created_mono (jobID : String) {n' : Node} (h : n.trace <+: n'.trace) :
    n.created jobID ≤ n'.created jobID :=
  (h.sublist.filterMap _).countP_le

lemma AtMostOnce.created_le (h : AtMostOnce jobID n0 n) :
    n.created jobID ≤ n0.created jobID + 1 := by
  obtain ⟨-, l, hl, k, hk, hentries⟩ := h
  rw [Node.created, hl, countP_append, hentries.countP_eq]
  exact Nat.add_le_add_left hk _

/-- **Where it shows, one pass may do it.** -/
lemma wp_processSlot_twice (hfiled : m.fsm.Filed) (hslot : FromSlot m s)
    (honce : ¬ HandlesOnce w now jobID m s) :
    wp (handle 0) Failing (w.processSlot now s)
      (fun _ n' => m.webhooks jobID + 2 ≤ n'.webhooks jobID ∨
        m.created jobID + 2 ≤ n'.created jobID) m := by
  rw [HandlesOnce, not_and_or] at honce
  rcases honce with hnew | hagain
  · refine wp_mono ((EntryLog.wp_processSlot (EntryLog.start jobID hfiled)).guarded
      fun _ _ _ he => he.1) ?_
    rintro _ n' ⟨⟨-, l, hl, hentries⟩, -⟩
    right
    rw [Node.created, Node.created, hl, countP_append, hentries.countP_eq]
    omega
  · simp only [not_forall, not_not] at hagain
    obtain ⟨hcount, d, hd, hurl, hexec, hleft⟩ := hagain
    refine wp_seq (wp_processJobs_failing (k := 2) hd hurl
      (hslot.eq_of_id hfiled (FSM.dossier_eq_some hd).1) hcount hexec (by exact_mod_cast hleft) {})
      fun _ n1 h1 => ?_
    exact wp_mono (wpWith_trace _ n1) fun _ n' h' => Or.inl (h1.trans (webhooks_mono jobID h'))

/-- **The condition is necessary.** -/
lemma comesOnlyTo_of_pass (left : ℕ) (hfiled : n.fsm.Filed) (htrace : n0.trace <+: n.trace)
    (h : wp (handle 0) Stable (w.processLoop now left) (fun _ => AtMostOnce jobID n0) n) :
    ComesOnlyTo w now (HandlesOnce w now jobID) left n := by
  induction left generalizing n with
  | zero => trivial
  | succ left ih =>
    refine wp_mono (wpWith_and (wpWith_and (wp_bind.mp h) (wpWith_trace _ n))
      (EntryLog.wp_getNextSlot (EntryLog.start jobID hfiled))) ?_
    rintro slot m ⟨⟨hrest, htrace'⟩, hlog', -, -, hslot⟩ s rfl hready
    have htrace := htrace.trans htrace'
    have hrest := wp_bind.mp ((wp_ite.mp hrest).2 (not_lt.mpr hready))
    refine ⟨?_, ?_⟩
    · by_contra honce
      -- in a run in which all calls fail
      have hboth := wpWith_and (hrest.guarded fun _ _ _ he => he.1)
        (wp_processSlot_twice hlog'.1.filed (hslot s rfl) honce)
      have hend : wp (handle 0) Failing (w.processSlot now s >>= fun goOn =>
          if goOn = true then w.processLoop now left else pure ()) (fun _ _ => False) m := by
        refine wp_seq hboth ?_
        rintro goOn n' ⟨hrest, htwice⟩
        refine wp_mono (wpWith_and (hrest.guarded fun _ _ _ he => he.1) (wpWith_trace _ n')) ?_
        rintro _ n'' ⟨honce, htrace''⟩
        have hcalls := honce.1
        have hcreated := honce.created_le
        have h1 := webhooks_mono jobID htrace
        have h2 := created_mono jobID htrace
        have h3 := webhooks_mono jobID htrace''
        have h4 := created_mono jobID htrace''
        omega
      have henv : ∀ i : ℕ, Failing ((fun _ => failingAt 0) i) := fun _ => ⟨⟨rfl, rfl⟩, rfl⟩
      exact wp_run hend henv
    · refine wp_mono (wpWith_and (wpWith_and hrest (wpWith_trace _ m))
        (EntryLog.wp_processSlot hlog')) ?_
      rintro goOn n' ⟨⟨hrest, htrace'⟩, hlog''⟩ hgo
      exact ih hlog''.1.filed (htrace.trans htrace') ((wp_ite.mp hrest).1 hgo)

end Converse

/-- **One webhook per job and pass**, and at most one new entry: so it is in every pass from a state
of a stable leader, whatever comes of the webhooks, exactly if no slot that the pass comes to lists
the job twice while it is due, and has it created anew or can have it called again. -/
theorem one_webhook_per_pass (w : Worker) (hcron : w.CronAdvances) (jobID : String)
    (hid : jobID ≠ "") (n : Node) (hfiled : n.fsm.Filed) (now : ℤ) :
    (∀ env : ℕ → Env, (∀ i, (env i).Stable) → (env 0).now = now →
      AtMostOnce jobID n (run (handle workerThread) w.processSlots env n).1) ↔
    ComesOnlyTo w now (HandlesOnce w now jobID) 10 n := by
  constructor
  · intro h
    refine comesOnlyTo_of_pass 10 hfiled (prefix_refl _) (wp_of_run (fun env henv r hr => ?_)
      ⟨calm 0, rfl, rfl⟩)
    have hpass := h (Nat.rec (motive := fun _ => Env) (calm now) fun i _ => env i) (fun i => ?_) rfl
    · rw [hr]
      exact hpass
    · cases i with
      | zero => exact ⟨rfl, rfl⟩
      | succ i => exact henv i
  · rintro hcomes env henv rfl
    have hwithin : Within (seconds n.queue.slotGap) (env 0).now jobID n n :=
      ⟨0, Nat.zero_le 1, EntryLog.start jobID hfiled, Nat.le_succ _, fun _ => ⟨rfl, rfl⟩⟩
    obtain ⟨k, hk, hlog, hcalls, -⟩ := wp_run (wp_processLoop_within hcron hid 10 hcomes hwithin)
      fun i => henv (i + 1)
    obtain ⟨l, hl, hentries⟩ := hlog.1.entries
    exact ⟨hcalls, l, hl, k, hk, hentries⟩

/-! ## A job that was created twice -/

/-- A leader that was asked twice to create a recurring job, to run at these seconds. -/
def createdTwice (first second : ℤ) : Node :=
  (run (handle workerThread) (forEach [first, second] fun t =>
    Store.createJob jobEventHandler
      { id := "a", type := .recurrente, cronExpr := "* * * * *", createdAt := t,
        webhookURL := "http://h" }
      >>= fun _ => pure ()) (fun _ => Env.calm 0) freshNode).1

/-- The slot lists the job twice, and the pass comes to it before the job is due. -/
theorem no_webhook_before_due :
    let n := createdTwice 25 25
    let n' := (run (handle workerThread) everyMinute.processSlots (fun _ => failingAt 22) n).1
    (n.fsm.slots.lookup 2).map SlotData.jobIDs = some ["a", "a"] ∧
      (n.fsm.slots.lookup 2).map SlotData.minTime = some 20 ∧ AtMostOnce "a" n n' := by
  intro n n'
  have hfiled : n.fsm.Filed :=
    Store.run_invariant (fun _ faults cmd h => h.apply faults cmd) _ _ _ FSM.filed_newFSM
  have hnot : ¬ n.fsm.Due 22 "a" := by
    rintro ⟨job, hjob, hdue⟩
    have hall : ∀ job ∈ n.fsm.jobs.lookup "a", shouldExecuteJob job 22 = false := by decide +kernel
    simp [hall job hjob] at hdue
  refine ⟨by decide +kernel, by decide +kernel, ?_⟩
  exact (one_webhook_per_pass everyMinute everyMinute_cronAdvances "a" (by decide) n hfiled 22).mpr
    (comesOnlyTo_of_not_due everyMinute_cronAdvances (by decide) 10 (EntryLog.start "a" hfiled) hnot)
    _ (fun _ => ⟨rfl, rfl⟩) rfl

/-- **Two webhooks in one pass**: the slot lists the job twice, its webhook fails and is started
again, and it is created anew twice, with two entries. -/
theorem two_webhooks_in_one_pass :
    let n := createdTwice 5 5
    let n' := (run (handle workerThread) everyMinute.processSlots (fun _ => failingAt 7) n).1
    (n.fsm.slots.lookup 0).map SlotData.jobIDs = some ["a", "a"] ∧
      n'.webhooks "a" = n.webhooks "a" + 2 ∧
      (n'.fsm.jobs.lookup "a").map Job.createdAt = some 60 ∧
      (n'.fsm.slots.lookup 6).map SlotData.jobIDs = some ["a", "a"] := by
  decide +kernel

end ScheduledDb
