import ScheduledDb.Simulator
import ScheduledDb.Slots.Scheduling
import ScheduledDb.Slots.TimingWheel.Patient

/-!
# What one tick does

A tick goes through the slots that have come up, and through the ids of each of them as they were
listed when the slot was read.  On the way it deletes jobs, creates them anew for their next time,
and writes the slots of these times.

* `Ticked` is the invariant of the two loops.  An id that has been executed is settled: its job is
  gone, or has a time that is still to come.  An id that has not been is as it was before the tick.
  So no list, however often it names an id, makes it be executed again.
* A key that has come up is removed from the wheel at the end of its slot's turn.  If the wheel is
  `Patient`, it is not the key of a time still to come.

`tick_at_most_once` puts this together.  `key_lost_far_ahead` is a wheel that hands out a key too
early: the key is added again in its slot's turn, and removed at the end of it.
-/

namespace ScheduledDb

open Machine PersistentSlotQueue HierarchicalTimingWheel List

/-! ## State machines of the simulator -/

/-- A command that creates a job with an id, deletes one or writes a slot. -/
def Command.Simulated (cmd : Command) : Prop :=
  (cmd.type = .createJob ∧ ∀ job ∈ cmd.job, job.id ≠ "") ∨ cmd.type = .deleteJob ∨
    cmd.type = .createSlot

namespace FSM

variable {f : FSM}

/-- The state machine after some commands. -/
def applyAll (f : FSM) (cmds : List Command) : FSM :=
  cmds.foldl (fun f cmd => (f.applyCommandInternal {} cmd).1) f

/-- Everything is hot and filed under its own name, and every job has one. -/
structure Plain (f : FSM) : Prop extends f.AllHot where
  named : f.jobs.lookup "" = none

lemma plain_newFSM : newFSM.Plain where
  filed := filed_newFSM
  coldSlotMeta := rfl
  named := by simp [newFSM]

lemma Plain.putJob (h : f.Plain) {job : Job} (hid : job.id ≠ "") :
    ((Effect.putJob job).act {} f).Plain where
  filed := h.filed.act {} (by simp)
  coldSlotMeta := h.coldSlotMeta
  named := by
    change (f.jobs.insert job.id job).lookup "" = none
    rw [Finmap.lookup_insert_ite, if_neg hid.symm, h.named]

lemma Plain.dropJob (h : f.Plain) (id : String) : ((Effect.dropJob id).act {} f).Plain where
  filed := h.filed.act {} (by simp)
  coldSlotMeta := h.coldSlotMeta
  named := by
    change (f.jobs.erase id).lookup "" = none
    rw [Finmap.lookup_erase_ite, h.named, ite_self]

lemma Plain.putSlot (h : f.Plain) (slot : SlotData) : ((Effect.putSlot slot).act {} f).Plain where
  filed := h.filed.act {} (by simp)
  coldSlotMeta := h.coldSlotMeta
  named := h.named

lemma Plain.getSlot_putSlot (h : f.Plain) (slot : SlotData) (key : ℤ) :
    ((Effect.putSlot slot).act {} f).getSlot key false
      = if key = slot.key then some slot else f.getSlot key false := by
  rw [(h.putSlot slot).getSlot, h.getSlot]
  exact Finmap.lookup_insert_ite f.slots slot.key key slot

lemma Plain.applyCommandInternal (h : f.Plain) {cmd : Command} (hcmd : cmd.Simulated) :
    (f.applyCommandInternal {} cmd).1.Plain := by
  rw [applyCommandInternal_fst]
  rcases hcmd with ⟨htype, hid⟩ | htype | htype
  · rw [effect, htype]
    cases hjob : cmd.job with
    | none => exact h
    | some job => exact h.putJob (hid job hjob)
  · rw [effect, htype]
    simp only []
    split_ifs
    · exact h
    · exact h.dropJob cmd.id
  · rw [effect, htype]
    cases cmd.slot with
    | none => exact h
    | some slot => exact h.putSlot slot

lemma plain_applyAll {cmds : List Command} (hcmds : ∀ cmd ∈ cmds, cmd.Simulated) :
    (newFSM.applyAll cmds).Plain := by
  have hrun : ∀ (f : FSM), f.Plain → (f.applyAll cmds).Plain := by
    induction cmds with
    | nil => exact fun f h => h
    | cons cmd cmds ih =>
      intro f h
      exact ih (fun cmd' hcmd' => hcmds cmd' (mem_cons_of_mem cmd hcmd')) _
        (h.applyCommandInternal (hcmds cmd mem_cons_self))
  exact hrun newFSM plain_newFSM

end FSM

/-! ## The next time of a job -/

/-- The cron library gives a later time, or the zero time if it finds none. -/
def Forward (cron : String → Option (ℤ → ℤ)) : Prop :=
  ∀ expr next, cron expr = some next → ∀ t, t < next t ∨ next t = zeroTime

lemma forward_minutely : Forward minutely := by
  intro expr next hnext t
  obtain rfl := eq_nextMinute hnext
  exact lt_nextMinute t

/-- The last date of a job is past, or will be at its next time. -/
def Job.PastLastDate (cron : String → Option (ℤ → ℤ)) (job : Job) (now : ℤ) : Prop :=
  ∃ lastDate ∈ job.lastDate, lastDate < now ∨ ∃ next ∈ cron job.cronExpr, lastDate < next now

namespace SimulatedWorker

variable {cron : String → Option (ℤ → ℤ)} {draws : ℕ → Draw} {now gap : ℤ} {patient : Prop}

/-- The next time is `0`, or one that the cron library gives and that is within the last date. -/
lemma calculateNextExecution_cases (cron : String → Option (ℤ → ℤ)) (job : Job) (now : ℤ) :
    calculateNextExecution cron job now = 0 ∨ ∃ next, cron job.cronExpr = some next ∧
      calculateNextExecution cron job now = next now ∧
      ∀ lastDate ∈ job.lastDate, next now ≤ lastDate := by
  rw [calculateNextExecution]
  cases cron job.cronExpr with
  | none => exact Or.inl rfl
  | some next =>
    cases job.lastDate with
    | none => exact Or.inr ⟨next, rfl, rfl, by simp⟩
    | some lastDate =>
      simp only []
      split_ifs with hlate
      · exact Or.inl rfl
      · exact Or.inr ⟨next, rfl, rfl, by simpa using hlate⟩

section Next

variable (hcron : Forward cron) {job : Job}
include hcron

/-- A next time is later than the present. -/
lemma lt_calculateNextExecution (hnext : 0 < calculateNextExecution cron job now) :
    now < calculateNextExecution cron job now := by
  rcases calculateNextExecution_cases cron job now with hzero | ⟨next, hexpr, heq, -⟩
  · omega
  · rw [heq] at hnext ⊢
    refine (hcron _ next hexpr now).resolve_right fun hzero => ?_
    rw [hzero] at hnext
    exact absurd hnext (by decide)

lemma calculateNextExecution_of_past (hpast : job.PastLastDate cron now) :
    calculateNextExecution cron job now ≤ 0 := by
  by_contra hnext
  have hlater := lt_calculateNextExecution hcron (not_le.mp hnext)
  obtain ⟨lastDate, hlast, hpast⟩ := hpast
  rcases calculateNextExecution_cases cron job now with hzero | ⟨next, hexpr, heq, hwithin⟩
  · omega
  · have hle := hwithin lastDate hlast
    rw [heq] at hlater
    rcases hpast with hover | ⟨next', hexpr', hover⟩
    · omega
    · obtain rfl : next = next' := Option.some.inj (hexpr.symm.trans hexpr')
      omega

end Next

/-! ## What becomes of a job -/

/-- An executed job has been created anew for its next time, is listed in the slot of that time and,
if the wheel is patient, the wheel has the slot's key; or it is gone, if there is no next time. -/
def Settled (cron : String → Option (ℤ → ℤ)) (now gap : ℤ) (patient : Prop) (job : Job)
    (id : String) (w : SimulatedWorker) : Prop :=
  let nextTs := calculateNextExecution cron job now
  if job.type = .recurrente ∧ 0 < nextTs then
    w.fsm.getJob id = some { job with createdAt := nextTs } ∧
      (∃ slot, w.fsm.getSlot (nextTs.tdiv gap) false = some slot ∧ id ∈ slot.jobIDs) ∧
      (patient → w.wheel.Holds (nextTs.tdiv gap))
  else w.fsm.getJob id = none

/-- No slot loses an id, and a patient wheel no key from the present slot on. -/
structure Grows (now gap : ℤ) (patient : Prop) (w w' : SimulatedWorker) : Prop where
  slots : ∀ key slot id, w.fsm.getSlot key false = some slot → id ∈ slot.jobIDs →
    ∃ slot', w'.fsm.getSlot key false = some slot' ∧ id ∈ slot'.jobIDs
  keys : patient → ∀ key, now.tdiv gap ≤ key → w.wheel.Holds key → w'.wheel.Holds key

lemma Settled.grow (hcron : Forward cron) (hgap : 0 < gap) (hnow : 0 ≤ now) {job : Job}
    {id : String} {w w' : SimulatedWorker} (h : Settled cron now gap patient job id w)
    (hgrows : Grows now gap patient w w') (hjob : w'.fsm.getJob id = w.fsm.getJob id) :
    Settled cron now gap patient job id w' := by
  simp only [Settled] at h ⊢
  split_ifs at h ⊢ with hnext
  · obtain ⟨hcreated, ⟨slot, hslot, hid⟩, hkey⟩ := h
    have hlater := lt_calculateNextExecution hcron hnext.2
    refine ⟨hjob.trans hcreated, hgrows.slots _ slot id hslot hid, fun hpatient => ?_⟩
    refine hgrows.keys hpatient _ ?_ (hkey hpatient)
    rw [Int.tdiv_eq_ediv_of_nonneg hnow, Int.tdiv_eq_ediv_of_nonneg hnext.2.le]
    exact Int.ediv_le_ediv hgap hlater.le
  · exact hjob.trans h

section Commands

variable {w : SimulatedWorker} {id : String}

lemma applyCommand_deleteJob (hid : id ≠ "") :
    w.applyCommand { type := .deleteJob, id := id }
      = { w with fsm := (Effect.dropJob id).act {} w.fsm } := by
  rw [applyCommand, FSM.applyCommandInternal_fst]
  simp [FSM.effect, hid]

lemma updateSlotInFSM_eq {job : Job} {t : ℤ} (hdue : job.dueTime = some t) :
    w.updateSlotInFSM job
      = { w with
          fsm := (Effect.putSlot (extendSlot (w.fsm.getSlot (t.tdiv w.slotGapSec) false)
            (t.tdiv w.slotGapSec) w.slotGapSec job.id)).act {} w.fsm } := by
  rw [updateSlotInFSM, hdue]
  simp only [applyCommand, FSM.applyCommandInternal_fst]
  rfl

/-- A job is created anew: the slot of its time is written, and the key of the slot added. -/
lemma reschedule_eq {job : Job} {t : ℤ} (hgap : w.slotGapSec = gap) (hid : job.id ≠ "")
    (hdue : job.dueTime = some t) :
    w.reschedule job.id job
      = { w with
          fsm := (Effect.putSlot (extendSlot (w.fsm.getSlot (t.tdiv gap) false) (t.tdiv gap) gap
              job.id)).act {} ((Effect.putJob job).act {} ((Effect.dropJob job.id).act {} w.fsm))
          wheel := w.wheel.add (t.tdiv gap) } := by
  subst hgap
  rw [reschedule, updateSlotInFSM_eq hdue, applyCommand_deleteJob hid, addToWheel, hdue]
  rfl

end Commands

/-! ## One job -/

/-- The state machine and the wheel are in order. -/
structure Orderly (gap : ℤ) (w : SimulatedWorker) : Prop where
  plain : w.fsm.Plain
  wellFormed : w.wheel.WellFormed
  gap_eq : w.slotGapSec = gap

section Settle

variable {w : SimulatedWorker} {id : String} {job : Job} (h : w.Orderly gap)
include h

lemma Orderly.deleteJob (now : ℤ) (patient : Prop) (hid : id ≠ "") :
    let w' := w.applyCommand { type := .deleteJob, id := id }
    w'.Orderly gap ∧ Grows now gap patient w w' ∧
      ∀ id', w'.fsm.getJob id' = if id' = id then none else w.fsm.getJob id' := by
  simp only [applyCommand_deleteJob hid]
  refine ⟨⟨h.plain.dropJob id, h.wellFormed, h.gap_eq⟩, ⟨fun key slot id' hslot hid' => ?_, ?_⟩, ?_⟩
  · exact ⟨slot, hslot, hid'⟩
  · exact fun _ key _ hkey => hkey
  · exact fun id' => Finmap.lookup_erase_ite w.fsm.jobs id id'

lemma Orderly.reschedule (now : ℤ) (patient : Prop) {t : ℤ} (hdue : job.dueTime = some t)
    (hid : job.id ≠ "") :
    let w' := w.reschedule job.id job
    w'.Orderly gap ∧ Grows now gap patient w w' ∧
      (∀ id', w'.fsm.getJob id' = if id' = job.id then some job else w.fsm.getJob id') ∧
      (∃ slot, w'.fsm.getSlot (t.tdiv gap) false = some slot ∧ job.id ∈ slot.jobIDs) ∧
      w'.wheel.Holds (t.tdiv gap) := by
  simp only [reschedule_eq h.gap_eq hid hdue]
  have hkey := FSM.extendSlot_key h.plain.filed (t.tdiv gap) gap job.id false
  generalize hslot : extendSlot (w.fsm.getSlot (t.tdiv gap) false) (t.tdiv gap) gap job.id = slot
    at hkey ⊢
  have hplain := (h.plain.dropJob job.id).putJob hid
  obtain ⟨hwf, hholds⟩ := add_keeps h.wellFormed (t.tdiv gap)
  refine ⟨⟨hplain.putSlot slot, hwf, h.gap_eq⟩,
    ⟨fun key found id hfound hmem => ?_, fun _ key _ hkey => (hholds key).mpr (Or.inl hkey)⟩,
    fun id => ?_, ⟨slot, ?_, ?_⟩, (hholds _).mpr (Or.inr rfl)⟩
  · rw [hplain.getSlot_putSlot, hkey]
    split_ifs with heq
    · refine ⟨slot, rfl, ?_⟩
      rw [← hslot, ← heq, hfound]
      exact mem_append_left _ hmem
    · exact ⟨found, hfound, hmem⟩
  · change ((w.fsm.jobs.erase job.id).insert job.id job).lookup id = _
    rw [Finmap.lookup_insert_ite, Finmap.lookup_erase_ite]
    split_ifs <;> rfl
  · rw [hplain.getSlot_putSlot, if_pos hkey.symm]
  · rw [← hslot]
    exact mem_extendSlot _ _ _ _

omit h in
lemma settle_eq (hdue : shouldExecute job now = true) (result : TickResult) :
    settle cron now w result id job =
      if job.type = .recurrente ∧ 0 < calculateNextExecution cron job now then
        (w.reschedule id { job with createdAt := calculateNextExecution cron job now },
          { result with rescheduled := result.rescheduled ++ [id] })
      else (w.applyCommand { type := .deleteJob, id := id }, result) := by
  rw [settle]
  split
  · next htype => simp [htype]
  · next htype => simp [htype]
  · next name htype => simp [shouldExecute, Worker.shouldExecuteJob, htype] at hdue

/-- **An executed job is settled**, and nothing else is lost. -/
lemma Orderly.settle (cron : String → Option (ℤ → ℤ)) (patient : Prop)
    (hjob : w.fsm.getJob id = some job) (hdue : shouldExecute job now = true)
    (result : TickResult) :
    let s' := settle cron now w result id job
    s'.1.Orderly gap ∧ Grows now gap patient w s'.1 ∧ Settled cron now gap patient job id s'.1 ∧
      (∀ id' ≠ id, s'.1.fsm.getJob id' = w.fsm.getJob id') ∧
      s'.2.executedJobs = result.executedJobs ∧
      ∀ id' ∈ s'.2.rescheduled, id' ∈ result.rescheduled ∨
        id' = id ∧ job.type = .recurrente ∧ 0 < calculateNextExecution cron job now := by
  have hid : id ≠ "" := by
    rintro rfl
    exact absurd (h.plain.named.symm.trans hjob) (by simp)
  obtain rfl : job.id = id := h.plain.filed.jobs id job hjob
  simp only [settle_eq hdue, Settled]
  split_ifs with hnext
  · have hdue' : ({ job with createdAt := calculateNextExecution cron job now } : Job).dueTime
        = some (calculateNextExecution cron job now) := by
      rw [Job.dueTime, hnext.1]
    obtain ⟨hkept, hgrows, hjobs, hslot, hkey⟩ := h.reschedule now patient hdue' hid
    refine ⟨hkept, hgrows, ⟨(hjobs job.id).trans (if_pos rfl), hslot, fun _ => hkey⟩,
      fun id' hne => (hjobs id').trans (if_neg hne), rfl, fun id' hid' => ?_⟩
    rcases mem_append.mp hid' with hid' | hid'
    · exact Or.inl hid'
    · exact Or.inr ⟨mem_singleton.mp hid', hnext⟩
  · obtain ⟨hkept, hgrows, hjobs⟩ := h.deleteJob now patient hid
    exact ⟨hkept, hgrows, (hjobs job.id).trans (if_pos rfl),
      fun id' hne => (hjobs id').trans (if_neg hne), rfl, fun id' hid' => Or.inl hid'⟩

end Settle

/-! ## The loops -/

/-- The ids that have been executed, in order. -/
def executedIDs (result : TickResult) : List String := result.executedJobs.map (·.jobID)

lemma shouldExecute_eq_true {job : Job} :
    shouldExecute job now = true ↔ ∃ t, job.dueTime = some t ∧ t ≤ now := by
  unfold shouldExecute Worker.shouldExecuteJob Job.dueTime
  cases job.type with
  | unico => cases job.timestamp <;> simp
  | recurrente => simp
  | other name => simp

/-- How far a tick has come since `w₀`. -/
structure Ticked (cron : String → Option (ℤ → ℤ)) (now gap : ℤ) (patient : Prop)
    (w₀ : SimulatedWorker) (s : SimulatedWorker × TickResult) : Prop where
  orderly : s.1.Orderly gap
  nodup : (executedIDs s.2).Nodup
  executed : ∀ id ∈ executedIDs s.2, ∃ job, w₀.fsm.getJob id = some job ∧
    shouldExecute job now = true ∧ Settled cron now gap patient job id s.1
  others : ∀ id, id ∉ executedIDs s.2 → s.1.fsm.getJob id = w₀.fsm.getJob id
  rescheduled : ∀ id ∈ s.2.rescheduled, id ∈ executedIDs s.2 ∧ ∃ job, w₀.fsm.getJob id = some job ∧
    job.type = .recurrente ∧ 0 < calculateNextExecution cron job now

section Loops

variable (hcron : Forward cron) {w₀ : SimulatedWorker} {s : SimulatedWorker × TickResult}
  (h : Ticked cron now gap patient w₀ s)
include hcron h

/-- A job that has been executed is not due any more. -/
lemma Ticked.processJob_of_executed {id : String} (hid : id ∈ executedIDs s.2) :
    processJob cron draws now s id = s := by
  obtain ⟨job, -, -, hsettled⟩ := h.executed id hid
  rw [processJob]
  simp only [Settled] at hsettled
  split_ifs at hsettled with hnext
  · have hlater := lt_calculateNextExecution hcron hnext.2
    simp only [hsettled.1]
    rw [if_neg]
    rw [shouldExecute_eq_true, Job.dueTime, hnext.1]
    simpa using hlater
  · simp only [hsettled]

variable (hgap : 0 < gap) (hnow : 0 ≤ now)
include hgap hnow

/-- Another job is executed. -/
lemma Ticked.execute {id : String} (hnew : id ∉ executedIDs s.2) {job : Job}
    (hjob : s.1.fsm.getJob id = some job) (hdue : shouldExecute job now = true)
    {s' : SimulatedWorker × TickResult} (horderly : s'.1.Orderly gap)
    (hgrows : Grows now gap patient s.1 s'.1) (hsettled : Settled cron now gap patient job id s'.1)
    (hothers : ∀ id' ≠ id, s'.1.fsm.getJob id' = s.1.fsm.getJob id')
    (hids : executedIDs s'.2 = executedIDs s.2 ++ [id])
    (hrescheduled : ∀ id' ∈ s'.2.rescheduled, id' ∈ s.2.rescheduled ∨
      id' = id ∧ job.type = .recurrente ∧ 0 < calculateNextExecution cron job now) :
    Ticked cron now gap patient w₀ s' := by
  have hbefore : w₀.fsm.getJob id = some job := (h.others id hnew).symm.trans hjob
  constructor
  case orderly => exact horderly
  case nodup =>
    rw [hids]
    exact h.nodup.append (nodup_singleton id) (by simpa using hnew)
  case executed =>
    intro id' hid'
    rw [hids] at hid'
    rcases mem_append.mp hid' with hold | hlast
    · obtain ⟨job', hjob', hdue', hsettled'⟩ := h.executed id' hold
      have hne : id' ≠ id := fun heq => hnew (heq ▸ hold)
      exact ⟨job', hjob', hdue', hsettled'.grow hcron hgap hnow hgrows (hothers id' hne)⟩
    · obtain rfl := mem_singleton.mp hlast
      exact ⟨job, hbefore, hdue, hsettled⟩
  case others =>
    intro id' hid'
    rw [hids, mem_append, mem_singleton, not_or] at hid'
    exact (hothers id' hid'.2).trans (h.others id' hid'.1)
  case rescheduled =>
    intro id' hid'
    rw [hids]
    rcases hrescheduled id' hid' with hold | ⟨rfl, hnext⟩
    · obtain ⟨hmem, hnext⟩ := h.rescheduled id' hold
      exact ⟨mem_append_left _ hmem, hnext⟩
    · exact ⟨mem_append_right _ (mem_singleton_self _), job, hbefore, hnext⟩

lemma Ticked.processJob (id : String) :
    Ticked cron now gap patient w₀ (processJob cron draws now s id) := by
  by_cases hid : id ∈ executedIDs s.2
  · rw [h.processJob_of_executed hcron hid]
    exact h
  rw [SimulatedWorker.processJob]
  cases hjob : s.1.fsm.getJob id with
  | none => exact h
  | some job =>
    simp only []
    split_ifs with hdue
    · generalize hrun : s.1.executor.execute (draws s.2.executedJobs.length) job now = execution
      have hresult : execution.2.jobID = id := by
        rw [← hrun]
        exact h.orderly.plain.filed.jobs id job hjob
      have horderly : Orderly gap { s.1 with executor := execution.1 } :=
        ⟨h.orderly.plain, h.orderly.wellFormed, h.orderly.gap_eq⟩
      obtain ⟨horderly', hgrows, hsettled, hothers, hlog, hrescheduled⟩ :=
        horderly.settle cron patient hjob hdue
          { s.2 with executedJobs := s.2.executedJobs ++ [execution.2] }
      refine h.execute hcron hgap hnow hid hjob hdue horderly' ⟨hgrows.slots, hgrows.keys⟩
        hsettled hothers ?_ hrescheduled
      rw [executedIDs, hlog, map_append, map_singleton, hresult]
      rfl
    · exact h

/-- A key of a slot that is over is removed. -/
lemma Ticked.removeKey {key : ℤ} (hkey : patient → key < now.tdiv gap) :
    Ticked cron now gap patient w₀ (removeKey s key) := by
  have hgrows : Grows now gap patient s.1 (SimulatedWorker.removeKey s key).1 := by
    refine ⟨fun key' slot id hslot hid => ⟨slot, hslot, hid⟩, fun hpatient key' hkey' hheld => ?_⟩
    have hover := hkey hpatient
    exact (holds_remove_of_ne (by omega)).mpr hheld
  constructor
  case orderly => exact ⟨h.orderly.plain, h.orderly.wellFormed.remove key, h.orderly.gap_eq⟩
  case nodup => exact h.nodup
  case executed =>
    intro id hid
    obtain ⟨job, hjob, hdue, hsettled⟩ := h.executed id hid
    exact ⟨job, hjob, hdue, hsettled.grow hcron hgap hnow hgrows rfl⟩
  case others => exact h.others
  case rescheduled => exact h.rescheduled

lemma Ticked.processSlot {key : ℤ} (hkey : patient → key < now.tdiv gap) :
    Ticked cron now gap patient w₀ (processSlot cron draws now s key) := by
  have hids : ∀ ids : List String, Ticked cron now gap patient w₀
      (ids.foldl (SimulatedWorker.processJob cron draws now) s) := by
    intro ids
    induction ids generalizing s with
    | nil => exact h
    | cons id ids ih => exact ih (h.processJob hcron hgap hnow id)
  rw [SimulatedWorker.processSlot]
  cases s.1.fsm.getSlot key false with
  | none => exact h.removeKey hcron hgap hnow hkey
  | some slotData =>
    simp only []
    split_ifs
    · exact h.removeKey hcron hgap hnow hkey
    · exact (hids slotData.jobIDs).removeKey hcron hgap hnow hkey

lemma Ticked.processSlots {keys : List ℤ} (hkeys : patient → ∀ key ∈ keys, key < now.tdiv gap) :
    Ticked cron now gap patient w₀ (keys.foldl (SimulatedWorker.processSlot cron draws now) s) := by
  induction keys generalizing s with
  | nil => exact h
  | cons key keys ih =>
    refine ih (h.processSlot hcron hgap hnow fun hpatient => ?_) fun hpatient => ?_
    · exact hkeys hpatient key mem_cons_self
    · exact (forall_mem_cons.mp (hkeys hpatient)).2

end Loops

lemma ticked_processTick (hcron : Forward cron) (hgap : 0 < gap) {w : SimulatedWorker}
    (h : w.Orderly gap) (hnow : 0 ≤ w.clock.now)
    (hready : patient → ∀ key ∈ (w.wheel.advance w.clock.now).2, key < w.clock.now.tdiv gap) :
    Ticked cron w.clock.now gap patient w (w.processTick cron draws) := by
  refine Ticked.processSlots hcron ?_ hgap hnow hready
  constructor
  case orderly => exact ⟨h.plain, h.wellFormed.advance _, h.gap_eq⟩
  case nodup => exact nodup_nil
  case executed => simp [executedIDs]
  case others => exact fun _ _ => rfl
  case rescheduled => simp

/-! ## The tick -/

/-- **A tick executes each job at most once, and none early.**  Afterwards an executed job that has
no next time is gone; one that was rescheduled is there for a later time and is listed in the slot
of that time.  The wheel has the key of the slot, if no key was added that is too far ahead. -/
theorem tick_at_most_once {g : ℤ} (hg : 0 < g) {configs : List WheelLevelConfig}
    (hdeep : 2 ≤ configs.length) (hchain : ChainFrom (g * 1000000000) configs)
    (hdur : ∀ c ∈ configs, InRange c.granularity) (calls : List WheelCall) {cmds : List Command}
    (hcmds : ∀ cmd ∈ cmds, cmd.Simulated) (hcron : Forward cron) (w : SimulatedWorker)
    (hgap : w.slotGap = g * 1000000000) (hfsm : w.fsm = newFSM.applyAll cmds) (hwheel : w.wheel
      = calls.foldl WheelCall.act (newHierarchicalTimingWheel (g * 1000000000) configs))
    (hnow : 0 ≤ w.clock.now) (hrange : InRange w.clock.now) (draws : ℕ → Draw) :
    let wheel := newHierarchicalTimingWheel (g * 1000000000) configs
    let s' := w.processTick cron draws
    (executedIDs s'.2).Nodup ∧
      (∀ id ∈ executedIDs s'.2, ∃ job t, w.fsm.getJob id = some job ∧ job.dueTime = some t ∧
        t ≤ w.clock.now ∧
        (job.type = .unico ∨ job.PastLastDate cron w.clock.now → s'.1.fsm.getJob id = none)) ∧
      ∀ id ∈ s'.2.rescheduled, ∃ job slot, s'.1.fsm.getJob id = some job ∧
        job.type = .recurrente ∧ w.clock.now < job.createdAt ∧
        s'.1.fsm.getSlot (job.createdAt.tdiv g) false = some slot ∧ id ∈ slot.jobIDs ∧
        (0 < wheel.totalCoverage ∧
            Run.Along WheelCall.act (fun w call => call.Timed g w) wheel calls →
          s'.1.wheel.Holds (job.createdAt.tdiv g)) := by
  intro wheel s'
  have hseconds : seconds (g * 1000000000) = g := seconds_mul g
  have horderly : w.Orderly g := by
    refine ⟨hfsm ▸ FSM.plain_applyAll hcmds, ?_, ?_⟩
    · rw [hwheel]
      exact WheelCall.wellFormed_run calls
        (wellFormed_new hchain.buckets_pos)
    · rw [slotGapSec, hgap, hseconds, if_neg hg.ne']
  have hready : 0 < wheel.totalCoverage ∧
        Run.Along WheelCall.act (fun w call => call.Timed g w) wheel calls →
      ∀ key ∈ (w.wheel.advance w.clock.now).2, key < w.clock.now.tdiv g := by
    rintro ⟨hcover, hcalls⟩
    have hsecond : (1000000000 : ℤ) ≤ g * 1000000000 := by omega
    have hnew := patient_new hsecond hdeep hchain hdur hcover
    rw [hseconds] at hnew
    rw [hwheel]
    exact ((WheelCall.patient_run hg hcalls hnew).advance hg hrange).2.1
  have h : Ticked cron w.clock.now g _ w s' := ticked_processTick hcron hg horderly hnow hready
  refine ⟨h.nodup, fun id hid => ?_, fun id hid => ?_⟩
  · obtain ⟨job, hjob, hdue, hsettled⟩ := h.executed id hid
    obtain ⟨t, ht, hle⟩ := shouldExecute_eq_true.mp hdue
    refine ⟨job, t, hjob, ht, hle, fun hover => ?_⟩
    rw [Settled, if_neg] at hsettled
    · exact hsettled
    · rintro ⟨htype, hnext⟩
      rcases hover with hunico | hpast
      · rw [htype] at hunico
        cases hunico
      · exact absurd (calculateNextExecution_of_past hcron hpast) (not_le.mpr hnext)
  · obtain ⟨hexecuted, job, hjob, hnext⟩ := h.rescheduled id hid
    obtain ⟨job', hjob', -, hsettled⟩ := h.executed id hexecuted
    obtain rfl : job = job' := Option.some.inj (hjob.symm.trans hjob')
    rw [Settled, if_pos hnext] at hsettled
    obtain ⟨hcreated, ⟨slot, hslot, hid⟩, hkey⟩ := hsettled
    exact ⟨_, slot, hcreated, hnext.1, lt_calculateNextExecution hcron hnext.2, hslot, hid, hkey⟩

/-- Two slots come up together.  They list the jobs several times; one job is rescheduled, and one
is past its last date. -/
theorem tick_at_most_once_two_slots :
    let configs : List WheelLevelConfig := [⟨10000000000, 6⟩, ⟨60000000000, 4⟩]
    let calls : List WheelCall := [.init 100, .add 10, .add 11, .add 40]
    let cmds : List Command :=
      [{ type := .createJob, job := some { id := "a", type := .unico, timestamp := some 105 } },
        { type := .createJob
          job := some
            { id := "b", type := .recurrente, cronExpr := "* * * * *", createdAt := 107 } },
        { type := .createJob
          job := some
            { id := "c", type := .recurrente, cronExpr := "* * * * *", createdAt := 111
              lastDate := some 131 } },
        { type := .createSlot, slot := some ⟨10, 100, 109, ["a", "b", "a", "c"]⟩ },
        { type := .createSlot, slot := some ⟨11, 110, 119, ["c", "b", "a"]⟩ }]
    let wheel := newHierarchicalTimingWheel (10 * 1000000000) configs
    let w : SimulatedWorker :=
      { clock := { now := 130, speed := 1 }
        executor := newSimulatedExecutor 1 0
        fsm := newFSM.applyAll cmds
        wheel := calls.foldl WheelCall.act wheel
        slotGap := 10 * 1000000000 }
    let s' := w.processTick minutely fun _ => ⟨0, 0⟩
    executedIDs s'.2 = ["a", "b", "c"] ∧ s'.2.rescheduled = ["b"] ∧
      (executedIDs s'.2).Nodup ∧
      ∀ id ∈ s'.2.rescheduled, ∃ job slot, s'.1.fsm.getJob id = some job ∧
        job.type = .recurrente ∧ w.clock.now < job.createdAt ∧
        s'.1.fsm.getSlot (job.createdAt.tdiv 10) false = some slot ∧ id ∈ slot.jobIDs ∧
        s'.1.wheel.Holds (job.createdAt.tdiv 10) := by
  intro configs calls cmds wheel w s'
  have hchain : ChainFrom (10 * 1000000000) configs := by decide
  have hcalls : Run.Along WheelCall.act (fun w call => call.Timed 10 w) wheel calls := by
    decide +kernel
  have hwheel : w.wheel = calls.foldl WheelCall.act wheel := by simp only [w]
  have hcmds : ∀ cmd ∈ cmds, cmd.Simulated := by
    simp [cmds, Command.Simulated]
  obtain ⟨hnodup, -, hrescheduled⟩ := tick_at_most_once (g := 10) (by decide) (by decide) hchain
    (by decide) calls hcmds forward_minutely w rfl rfl hwheel (by decide) (by decide) fun _ => ⟨0, 0⟩
  refine ⟨by decide +kernel, by decide +kernel, hnodup, ?_⟩
  simp only [s']
  intro id hid
  obtain ⟨job, slot, hjob, htype, hlater, hslot, hlisted, hkey⟩ := hrescheduled id hid
  exact ⟨job, slot, hjob, htype, hlater, hslot, hlisted, hkey ⟨by decide, hcalls⟩⟩

/-! ## A wheel that is started too early -/

/-- A slot gap of `2 ^ 33` seconds. -/
def longGap : Duration := 8589934592 * 1000000000

def longConfigs : List WheelLevelConfig := [⟨longGap, 1⟩, ⟨longGap, 1⟩]

/-- A wheel of two buckets, both empty. -/
def longWheel (base : ℤ) : HierarchicalTimingWheel :=
  { newHierarchicalTimingWheel longGap longConfigs with currentBase := base, initialized := true }

lemma tick_longWheel {base : ℤ} (h : InRange (base + 8589934592)) :
    (longWheel base).tick = (longWheel (base + 8589934592), []) := by
  have htick : (longWheel base).tick = (longWheel (wrap64 (base + 8589934592)), []) := rfl
  rw [htick, wrap64_of_mem h]

/-- The loop of `Advance` goes through `n` slots. -/
lemma advanceLoop_longWheel {n : ℕ} : ∀ {rounds : ℕ}, n ≤ rounds → n ≤ 1073741824 →
    ∀ ready, advanceLoop 0 rounds (longWheel (-(n * 8589934592)), ready)
      = (longWheel 0, ready) := by
  induction n with
  | zero =>
    intro rounds hrounds hn ready
    cases rounds with
    | zero => rfl
    | succ rounds => rfl
  | succ n ih =>
    intro rounds hrounds hn ready
    obtain ⟨rounds, rfl⟩ := Nat.exists_eq_succ_of_ne_zero (Nat.ne_zero_of_lt hrounds)
    have hbase : -(((n + 1 : ℕ) : ℤ) * 8589934592) + 8589934592 = -((n : ℤ) * 8589934592) := by
      push_cast
      ring
    have hbefore : (longWheel (-(((n + 1 : ℕ) : ℤ) * 8589934592))).currentBase < 0 := by
      simp only [longWheel]
      omega
    rw [advanceLoop, if_pos hbefore,
      tick_longWheel (by rw [hbase]; exact ⟨by omega, by omega⟩), hbase, append_nil]
    exact ih (by omega) (by omega) ready


/-- The key of slot 1 is taken for one of the past, and handed out by the first round. -/
lemma advance_longWheel {w : HierarchicalTimingWheel}
    (hw : w = (longWheel (-9223372036854775808 + 8589934592)).add 1) :
    w.advance 8589934590 = (longWheel 0, [1]) := by
  have hbase : w.currentBase = -9223372036854775808 + 8589934592 := by
    rw [hw]
    decide +kernel
  have hnewBase : w.baseAt 8589934590 = 0 := by
    rw [hw]
    decide +kernel
  have hinitialized : w.initialized = true := by
    rw [hw]
    decide +kernel
  have htick : w.tick = (longWheel (-((1073741822 : ℕ) * 8589934592)), [1]) := by
    rw [hw]
    rfl
  obtain ⟨rounds, hrounds⟩ : ∃ rounds, (w.baseAt 8589934590 - w.currentBase).toNat = rounds + 1 :=
    Nat.exists_eq_succ_of_ne_zero (by omega)
  have hloop : advanceLoop 0 (rounds + 1) (w, []) = (longWheel 0, [1]) := by
    rw [advanceLoop, if_pos (by omega), htick]
    exact advanceLoop_longWheel (by omega) (by omega) [1]
  rw [advance, if_neg (by simp [hinitialized]), if_neg (by omega), hrounds,
    hnewBase, hloop]
  rfl

/-- **A key that is handed out too early is lost.**  Slots are `2 ^ 33` seconds long.  The wheel is
started `2 ^ 63` seconds before slot 1, whose key then looks like one of the past and is handed out
two seconds before the slot.  The job of the slot is due and is rescheduled for the next minute, in
slot 1, so the key is added again; at the end of the slot's turn it is removed. -/
theorem key_lost_far_ahead :
    let calls : List WheelCall := [.init (-9223372036854775808 + 8589934592), .add 1]
    let cmds : List Command :=
      [{ type := .createJob
         job := some { id := "a", type := .recurrente, cronExpr := "* * * * *", createdAt := 0 } },
        { type := .createSlot, slot := some ⟨1, 8589934592, 17179869183, ["a"]⟩ }]
    let w : SimulatedWorker :=
      { clock := { now := 8589934590, speed := 1 }
        executor := newSimulatedExecutor 1 0
        fsm := newFSM.applyAll cmds
        wheel := calls.foldl WheelCall.act (newHierarchicalTimingWheel longGap longConfigs)
        slotGap := longGap }
    let s' := w.processTick minutely fun _ => ⟨0, 0⟩
    ChainFrom longGap longConfigs ∧ (∀ c ∈ longConfigs, InRange c.granularity) ∧
      (∀ cmd ∈ cmds, cmd.Simulated) ∧ Forward minutely ∧ s'.2.rescheduled = ["a"] ∧
      (s'.1.fsm.getJob "a").map Job.createdAt = some 8589934620 ∧
      (s'.1.fsm.getSlot 1 false).map SlotData.jobIDs = some ["a", "a"] ∧ ¬ s'.1.wheel.Holds 1 := by
  intro calls cmds w s'
  have hs' : s' = processSlot minutely (fun _ => ⟨0, 0⟩) 8589934590
      ({ w with wheel := longWheel 0 }, { executedJobs := [], rescheduled := [], readySlots := 1 })
      1 := by
    have hadvance : w.wheel.advance w.clock.now = (longWheel 0, [1]) := advance_longWheel rfl
    simp only [s', processTick, hadvance]
    rfl
  rw [hs', holds_iff_mem_keys]
  refine ⟨by decide, by decide, ?_, forward_minutely, by decide +kernel⟩
  simp [cmds, Command.Simulated]

end SimulatedWorker

end ScheduledDb
