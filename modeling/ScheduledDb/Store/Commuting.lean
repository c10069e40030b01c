import Mathlib.Data.Finset.Disjoint
import ScheduledDb.Core.Footprint
import ScheduledDb.Store.Fsm

/-!
# Commands that do not meet

The state of the machine, place by place: one per job, slot and counter.  A command reaches at most
one place: the job or the slot it names, or its counter.  Commands that reach different places can
be applied in either order.
-/

namespace ScheduledDb

open Footprint FSM Finmap Option

/-- Where a command can reach. -/
inductive Place where
  | job (id : String)
  | slot (key : ℤ)
  | memoryUsage
  | jobCount
  deriving DecidableEq, Repr

/-- What is kept in one place: a job and its execution state, a slot with its cold copy, a
counter. -/
inductive Content where
  | job (job : Option Job) (state : Option JobExecutionState)
  | slot (hot : Option SlotData) (isCold : Bool) (cold : Option SlotData)
  | counter (n : ℤ)

namespace FSM

def content (f : FSM) : Place → Content
  | .job id => .job (f.jobs.lookup id) (f.executionStates.lookup id)
  | .slot key =>
    .slot (f.slots.lookup key) (f.isSlotCold key) (f.coldStore.bind fun c => c.lookup key)
  | .memoryUsage => .counter f.memoryUsage
  | .jobCount => .counter f.jobCount

lemma coldStore_ext {c c' : Option (Finmap fun _ : ℤ => SlotData)} (hsome : c.isSome = c'.isSome)
    (hlookup : ∀ key, (c.bind fun c => c.lookup key) = c'.bind fun c => c.lookup key) : c = c' := by
  cases c with
  | none =>
    cases c' with
    | none => rfl
    | some c' => simp at hsome
  | some c =>
    cases c' with
    | none => simp at hsome
    | some c' => exact congrArg some (ext_lookup hlookup)

/-- The contents of all places make up the state; only whether there is a cold store is settled. -/
lemma ext_content {f g : FSM} (hsettled : f.coldStore.isSome = g.coldStore.isSome)
    (hcontent : ∀ p, f.content p = g.content p) : f = g := by
  have hjob (id : String) := Content.job.inj (hcontent (.job id))
  have hslot (key : ℤ) := Content.slot.inj (hcontent (.slot key))
  have hjobs : f.jobs = g.jobs := ext_lookup fun id => (hjob id).1
  have hstates : f.executionStates = g.executionStates := ext_lookup fun id => (hjob id).2
  have hslots : f.slots = g.slots := ext_lookup fun key => (hslot key).1
  have hmeta : f.coldSlotMeta = g.coldSlotMeta := by
    ext key
    simpa [isSlotCold] using (hslot key).2.1
  have hcold : f.coldStore = g.coldStore := coldStore_ext hsettled fun key => (hslot key).2.2
  have hmemory : f.memoryUsage = g.memoryUsage := Content.counter.inj (hcontent .memoryUsage)
  have hcount : f.jobCount = g.jobCount := Content.counter.inj (hcontent .jobCount)
  cases f
  cases g
  simp_all

def view : View FSM Bool Place Content where
  settled f := f.coldStore.isSome
  cell := content
  ext := ext_content

end FSM

/-! ## Effects -/

namespace Effect

/-- The one place that an effect writes. -/
def place : Effect → Option Place
  | none => .none
  | putJob job => some (.job job.id)
  | dropJob id => some (.job id)
  | putSlot slot => some (.slot slot.key)
  | dropSlot key => some (.slot key)
  | archive slot => some (.slot slot.key)
  | unarchive key => some (.slot key)
  | putState id _ => some (.job id)
  | setMemoryUsage _ => some .memoryUsage
  | setJobCount _ => some .jobCount

lemma isSome_act (faults : ColdFaults) (f : FSM) (e : Effect) :
    (e.act faults f).coldStore.isSome = f.coldStore.isSome := by
  cases e <;> simp [act]

/-- What an effect makes of the content of its place. -/
def revise (faults : ColdFaults) (hasCold : Bool) : Effect → Content → Content
  | putJob job, .job _ _ => .job (some job) (some (newExecutionState job.id job.createdAt))
  | dropJob _, .job _ _ => .job .none .none
  | putState _ state, .job job _ => .job job (some state)
  | putSlot slot, .slot _ isCold cold => .slot (some slot) isCold cold
  | dropSlot _, .slot _ _ cold =>
    .slot .none false (if faults.delete.isSome = false then .none else cold)
  | archive slot, .slot _ _ _ => .slot .none true (if hasCold then some slot else .none)
  | unarchive _, .slot hot _ cold =>
    .slot (cold.or hot) false (if faults.delete.isSome = false then .none else cold)
  | setMemoryUsage n, .counter _ => .counter n
  | setJobCount n, .counter _ => .counter n
  | _, content => content

lemma bind_insert (c : Option (Finmap fun _ : ℤ => SlotData)) (slot : SlotData) (key : ℤ) :
    ((c.map fun c => c.insert slot.key slot).bind fun c => c.lookup key)
      = if key = slot.key then (if c.isSome then some slot else .none)
        else c.bind fun c => c.lookup key := by
  cases c with
  | none => simp
  | some c => simpa using lookup_insert_ite c slot.key key slot

/-- **An effect revises the content of its place** and leaves the other places alone. -/
lemma content_act (faults : ColdFaults) (f : FSM) (e : Effect) (p : Place) :
    (e.act faults f).content p
      = if e.place = some p then e.revise faults f.coldStore.isSome (f.content p)
        else f.content p := by
  cases e with
  | none => rfl
  | putJob job =>
    cases p with
    | job id =>
      rcases eq_or_ne id job.id with rfl | hid
      · simp [act, content, place, revise]
      · simp [act, content, place, lookup_insert_of_ne, hid, hid.symm]
    | _ => exact (if_neg (by simp [place])).symm
  | dropJob id' =>
    cases p with
    | job id =>
      rcases eq_or_ne id id' with rfl | hid
      · simp [act, content, place, revise]
      · simp [act, content, place, lookup_erase_ne, hid, hid.symm]
    | _ => exact (if_neg (by simp [place])).symm
  | putState id' state =>
    cases p with
    | job id =>
      rcases eq_or_ne id id' with rfl | hid
      · simp [act, content, place, revise]
      · simp [act, content, place, lookup_insert_of_ne, hid, hid.symm]
    | _ => exact (if_neg (by simp [place])).symm
  | putSlot slot =>
    cases p with
    | slot key =>
      have hcold : (act faults f (putSlot slot)).isSlotCold key = f.isSlotCold key := rfl
      rw [content, hcold]
      rcases eq_or_ne key slot.key with rfl | hkey
      · simp [act, content, place, revise]
      · simp [act, content, place, lookup_insert_of_ne, hkey, hkey.symm]
    | _ => exact (if_neg (by simp [place])).symm
  | dropSlot key' =>
    cases p with
    | slot key =>
      rcases eq_or_ne key key' with rfl | hkey
      · simp [act, content, place, revise, isSlotCold, bind_deleteColdSlot]
      · simp [act, content, place, isSlotCold, bind_deleteColdSlot, hkey,
          lookup_erase_ne, hkey.symm]
    | _ => exact (if_neg (by simp [place])).symm
  | archive slot =>
    cases p with
    | slot key =>
      rcases eq_or_ne key slot.key with rfl | hkey
      · simp [act, content, place, revise, isSlotCold, bind_insert]
      · simp [act, content, place, isSlotCold, bind_insert, hkey,
          lookup_erase_ne, hkey.symm]
    | _ => exact (if_neg (by simp [place])).symm
  | unarchive key' =>
    cases p with
    | slot key =>
      rcases eq_or_ne key key' with rfl | hkey
      · cases hcold : f.coldStore.bind fun c => c.lookup key with
        | none | some slot =>
          simp [act, content, place, revise, isSlotCold, bind_deleteColdSlot, hcold]
      · cases hcold : f.coldStore.bind fun c => c.lookup key' with
        | none =>
          simp [act, content, place, isSlotCold, bind_deleteColdSlot, hkey, hcold,
            hkey.symm]
        | some slot =>
          simp [act, content, place, isSlotCold, bind_deleteColdSlot, hkey, hcold,
            lookup_insert_of_ne, hkey.symm]
    | _ => exact (if_neg (by simp [place])).symm
  | setMemoryUsage n =>
    cases p with
    | memoryUsage => rfl
    | _ => exact (if_neg (by simp [place])).symm
  | setJobCount n =>
    cases p with
    | jobCount => rfl
    | _ => exact (if_neg (by simp [place])).symm

end Effect

/-! ## Commands -/

/-- The places of a command: what it names, or nothing if it lacks what it has to name. -/
def Command.footprint (cmd : Command) : Finset Place :=
  match cmd.type with
  | .createJob => (cmd.job.map fun job => Place.job job.id).toFinset
  | .deleteJob => if cmd.id = "" then ∅ else {.job cmd.id}
  | .createSlot => (cmd.slot.map fun slot => Place.slot slot.key).toFinset
  | .archiveSlot => (cmd.coldSlot.map fun slot => Place.slot slot.key).toFinset
  | .deleteSlot | .unarchiveSlot =>
    if cmd.id = "" then ∅ else ((scanKey cmd.id).map Place.slot).toFinset
  | .updateJobStatus | .recordAttempt | .pruneAttempts =>
    (cmd.statusCommand.map fun sc => Place.job sc.jobID).toFinset
  | .updateMemoryUsage => {.memoryUsage}
  | .updateJobCount => {.jobCount}
  | .other _ => ∅

namespace FSM

/-- Two states a command cannot tell apart. -/
structure Alike (cmd : Command) (f g : FSM) : Prop where
  cold : f.coldStore.isSome = g.coldStore.isSome
  content : ∀ p ∈ cmd.footprint, f.content p = g.content p

section

variable {cmd : Command} {faults : ColdFaults} {f g : FSM}

lemma place_keyEffect {id : String} {effect : ℤ → Effect}
    (heffect : ∀ key, (effect key).place = some (.slot key)) :
    (keyEffect id effect).place = if id = "" then none else (scanKey id).map Place.slot := by
  unfold keyEffect
  split_ifs with hid
  · rfl
  · cases hkey : scanKey id with
    | none => rfl
    | some key => exact heffect key

lemma place_statusEffect (sc : StatusCommand) {p : Place}
    (h : (f.statusEffect sc).place = some p) : p = .job sc.jobID := by
  unfold statusEffect at h
  split at h
  · split_ifs at h
    · exact (some.inj h).symm
    · simp [Effect.place] at h
  · split_ifs at h
    · exact (some.inj h).symm
    · exact (some.inj h).symm

lemma place_attemptsEffect {sc : StatusCommand}
    {attempts : JobExecutionState → Option (List ExecutionAttempt)} {p : Place}
    (h : (f.attemptsEffect sc attempts).place = some p) : p = .job sc.jobID := by
  unfold attemptsEffect at h
  split at h
  · simp [Effect.place] at h
  · split at h
    · simp [Effect.place] at h
    · exact (some.inj h).symm

/-- A command has its effect in its footprint. -/
lemma place_effect {p : Place} (h : (f.effect faults cmd).place = some p) : p ∈ cmd.footprint := by
  cases htype : cmd.type with
  | createJob =>
    cases hjob : cmd.job with
    | none => simp [effect, htype, hjob, Effect.place] at h
    | some job => simpa [effect, htype, hjob, Effect.place, Command.footprint, eq_comm] using h
  | deleteJob =>
    by_cases hid : cmd.id = ""
    · simp [effect, htype, hid, Effect.place] at h
    · simpa [effect, htype, hid, Effect.place, Command.footprint, eq_comm] using h
  | createSlot =>
    cases hslot : cmd.slot with
    | none => simp [effect, htype, hslot, Effect.place] at h
    | some slot => simpa [effect, htype, hslot, Effect.place, Command.footprint, eq_comm] using h
  | deleteSlot =>
    simp only [effect, htype] at h
    rw [place_keyEffect fun key => (rfl : (Effect.dropSlot key).place = _)] at h
    split_ifs at h with hid
    simp [Command.footprint, htype, hid, h]
  | archiveSlot =>
    simp only [effect, htype] at h
    split_ifs at h with hcold
    · cases hslot : cmd.coldSlot with
      | none => simp [hslot, Effect.place] at h
      | some slot => simpa [htype, hslot, Effect.place, Command.footprint, eq_comm] using h
    · simp [Effect.place] at h
  | unarchiveSlot =>
    simp only [effect, htype] at h
    split_ifs at h with hcold
    · rw [place_keyEffect fun key => (rfl : (Effect.unarchive key).place = _)] at h
      split_ifs at h with hid
      simp [Command.footprint, htype, hid, h]
    · simp [Effect.place] at h
  | updateJobStatus =>
    cases hcmd : cmd.statusCommand with
    | none => simp [effect, htype, hcmd, Effect.place] at h
    | some sc =>
      simp only [effect, htype, hcmd, map_some, getD_some] at h
      simp [Command.footprint, htype, hcmd, place_statusEffect sc h]
  | recordAttempt | pruneAttempts =>
    cases hcmd : cmd.statusCommand with
    | none => simp [effect, htype, hcmd, Effect.place] at h
    | some sc =>
      simp only [effect, htype, hcmd, map_some, getD_some] at h
      simp [Command.footprint, htype, hcmd, place_attemptsEffect h]
  | updateMemoryUsage => simpa [effect, htype, Effect.place, Command.footprint, eq_comm] using h
  | updateJobCount => simpa [effect, htype, Effect.place, Command.footprint, eq_comm] using h
  | other text => simp [effect, htype, Effect.place] at h

lemma Alike.state (h : Alike cmd f g) (sc : StatusCommand)
    (hplace : Place.job sc.jobID ∈ cmd.footprint) :
    f.executionStates.lookup sc.jobID = g.executionStates.lookup sc.jobID :=
  (Content.job.inj (h.content _ hplace)).2

/-- What a command is about to do it reads off its footprint. -/
lemma Alike.effect (h : Alike cmd f g) : f.effect faults cmd = g.effect faults cmd := by
  cases htype : cmd.type with
  | updateJobStatus =>
    cases hcmd : cmd.statusCommand with
    | none => simp [FSM.effect, htype, hcmd]
    | some sc =>
      have hstate := h.state sc (by simp [Command.footprint, htype, hcmd])
      simp [FSM.effect, htype, hcmd, statusEffect, hstate]
  | recordAttempt | pruneAttempts =>
    cases hcmd : cmd.statusCommand with
    | none => simp [FSM.effect, htype, hcmd]
    | some sc =>
      have hstate := h.state sc (by simp [Command.footprint, htype, hcmd])
      simp [FSM.effect, htype, hcmd, attemptsEffect, hstate]
  | updateMemoryUsage =>
    have hplace : Place.memoryUsage ∈ cmd.footprint := by simp [Command.footprint, htype]
    have hmemory := Content.counter.inj (h.content _ hplace)
    simp [FSM.effect, htype, hmemory]
  | updateJobCount =>
    have hplace : Place.jobCount ∈ cmd.footprint := by simp [Command.footprint, htype]
    have hcount := Content.counter.inj (h.content _ hplace)
    simp [FSM.effect, htype, hcount]
  | archiveSlot | unarchiveSlot => simp [FSM.effect, htype, h.cold]
  | _ => simp [FSM.effect, htype]

lemma transition_snd (f : FSM) (state : JobExecutionState) (sc : StatusCommand) :
    (f.transition state sc).2
      = ((validateStateTransition state.status sc.status).map Response.error).getD .nil := by
  unfold transition
  cases validateStateTransition state.status sc.status <;> rfl

lemma applyArchiveSlot_snd (f : FSM) (slot : SlotData) :
    (f.applyArchiveSlot faults slot).2
      = if f.coldStore.isSome then
          (faults.put.map fun cause => Response.error (.archiveFailed slot.key cause)).getD .nil
        else .error .coldStoreNotEnabled := by
  cases hcold : f.coldStore with
  | none => simp [applyArchiveSlot, hcold]
  | some c => cases hput : faults.put <;> simp [applyArchiveSlot, hcold, hput]

lemma applyUnarchiveSlot_snd (f : FSM) (id : String) :
    (f.applyUnarchiveSlot faults id).2
      = if f.coldStore.isSome then
          match scanKey id with
          | none => .error (.invalidSlotKey id)
          | some key =>
            (faults.get.map fun cause => Response.error (.unarchiveFailed key cause)).getD .nil
        else .error .coldStoreNotEnabled := by
  cases hcold : f.coldStore with
  | none => simp [applyUnarchiveSlot, hcold]
  | some c =>
    cases hkey : scanKey id with
    | none => simp [applyUnarchiveSlot, hcold, hkey]
    | some key => cases hget : faults.get <;> simp [applyUnarchiveSlot, hcold, hkey, hget]

/-- It reads its answer there, too. -/
lemma Alike.answer (h : Alike cmd f g) :
    (f.applyCommandInternal faults cmd).2 = (g.applyCommandInternal faults cmd).2 := by
  cases htype : cmd.type with
  | createJob => cases hjob : cmd.job <;> simp [applyCommandInternal, htype, hjob, applyCreateJob]
  | deleteJob =>
    by_cases hid : cmd.id = ""
    · simp [applyCommandInternal, htype, hid]
    · simp [applyCommandInternal, htype, hid, applyDeleteJob]
  | createSlot => cases hslot : cmd.slot <;> simp [applyCommandInternal, htype, hslot]
  | deleteSlot =>
    by_cases hid : cmd.id = ""
    · simp [applyCommandInternal, htype, hid]
    · cases hkey : scanKey cmd.id <;>
        simp [applyCommandInternal, htype, hid, applyDeleteSlot, hkey]
  | archiveSlot =>
    cases hslot : cmd.coldSlot <;>
      simp [applyCommandInternal, htype, hslot, applyArchiveSlot_snd, h.cold]
  | unarchiveSlot =>
    by_cases hid : cmd.id = ""
    · simp [applyCommandInternal, htype, hid]
    · simp [applyCommandInternal, htype, hid, applyUnarchiveSlot_snd, h.cold]
  | updateJobStatus =>
    cases hcmd : cmd.statusCommand with
    | none => simp [applyCommandInternal, htype, hcmd]
    | some sc =>
      have hstate := h.state sc (by simp [Command.footprint, htype, hcmd])
      cases hlookup : g.executionStates.lookup sc.jobID <;>
        simp [applyCommandInternal, htype, hcmd, applyStatusUpdate, hstate, hlookup,
          transition_snd]
  | recordAttempt =>
    cases hcmd : cmd.statusCommand with
    | none => simp [applyCommandInternal, htype, hcmd]
    | some sc =>
      have hstate := h.state sc (by simp [Command.footprint, htype, hcmd])
      cases hlookup : g.executionStates.lookup sc.jobID <;> cases hattempt : sc.attempt <;>
        simp [applyCommandInternal, htype, hcmd, applyRecordAttempt, hstate, hlookup, hattempt]
  | pruneAttempts =>
    cases hcmd : cmd.statusCommand with
    | none => simp [applyCommandInternal, htype, hcmd]
    | some sc =>
      have hstate := h.state sc (by simp [Command.footprint, htype, hcmd])
      cases hlookup : g.executionStates.lookup sc.jobID <;>
        simp [applyCommandInternal, htype, hcmd, applyPruneAttempts, hstate, hlookup]
  | updateMemoryUsage =>
    have hplace : Place.memoryUsage ∈ cmd.footprint := by simp [Command.footprint, htype]
    have hmemory := Content.counter.inj (h.content _ hplace)
    simp [applyCommandInternal, htype, applyMemoryUpdate, hmemory]
  | updateJobCount =>
    have hplace : Place.jobCount ∈ cmd.footprint := by simp [Command.footprint, htype]
    have hcount := Content.counter.inj (h.content _ hplace)
    simp [applyCommandInternal, htype, applyJobCountUpdate, hcount]
  | other text => simp [applyCommandInternal, htype]

end

lemma footprint_wire (cmd : Command) : cmd.wire.footprint = cmd.footprint := by
  have hjob : cmd.wire.job.map (fun job => Place.job job.id)
      = cmd.job.map fun job => Place.job job.id := by
    rw [Command.wire, map_map]
    rfl
  unfold Command.footprint
  rw [hjob]
  rfl

/-- What is not in its footprint a command leaves alone. -/
lemma content_apply_of_notMem {cmd : Command} {p : Place} (h : p ∉ cmd.footprint)
    (faults : ColdFaults) (f : FSM) : (f.apply faults cmd).1.content p = f.content p := by
  rw [apply_fst, Effect.content_act, if_neg]
  intro hplace
  rw [← footprint_wire] at h
  exact h (place_effect hplace)

/-- **A command keeps to its footprint.** -/
theorem keepsTo_apply (faults : ColdFaults) (cmd : Command) :
    KeepsTo view (fun f => f.apply faults cmd) (cmd.footprint : Set Place) where
  settled f := by
    show (f.apply faults cmd).1.coldStore.isSome = f.coldStore.isSome
    rw [apply_fst, Effect.isSome_act]
  frame f _ hp := content_apply_of_notMem hp faults f
  reads f g hcold hcontent := by
    have halike : Alike cmd.wire f g := ⟨hcold, by rw [footprint_wire]; exact hcontent⟩
    refine ⟨fun p hp => ?_, halike.answer⟩
    have hp : f.content p = g.content p := hcontent p hp
    show (f.apply faults cmd).1.content p = (g.apply faults cmd).1.content p
    rw [apply_fst, apply_fst, halike.effect, Effect.content_act, Effect.content_act, halike.cold,
      hp]

/-- **Commands that do not meet commute**, whatever the cold store does meanwhile: either order ends
in the same state and gives the same two answers. -/
theorem apply_comm {cmd cmd' : Command} (h : Disjoint cmd.footprint cmd'.footprint)
    (faults faults' : ColdFaults) (f : FSM) :
    ((f.apply faults' cmd').1.apply faults cmd).1 = ((f.apply faults cmd).1.apply faults' cmd').1
      ∧ ((f.apply faults' cmd').1.apply faults cmd).2 = (f.apply faults cmd).2
      ∧ ((f.apply faults cmd).1.apply faults' cmd').2 = (f.apply faults' cmd').2 :=
  (keepsTo_apply faults cmd).commute (keepsTo_apply faults' cmd') (Finset.disjoint_coe.mpr h) f

/-- Deleting a job and starting another one, the attempt for a job nothing is known of yet. -/
theorem apply_comm_delete_start :
    let create : Command :=
      { type := .createJob, job := some { id := "a", type := .unico, timestamp := some 5 } }
    let delete : Command := { type := .deleteJob, id := "a" }
    let start : Command :=
      { type := .updateJobStatus,
        statusCommand := some { jobID := "b", status := .inProgress, timestamp := 7 } }
    let f := (newFSM.apply {} create).1
    (f.getJob "a").isSome ∧ ((f.apply {} delete).1.getJob "a").isNone
      ∧ ((f.apply {} start).1.apply {} delete).1 = ((f.apply {} delete).1.apply {} start).1
      ∧ ((f.apply {} start).1.apply {} delete).2 = (f.apply {} delete).2
      ∧ ((f.apply {} delete).1.apply {} start).2 = (f.apply {} start).2 := by
  intro create delete start f
  exact ⟨by decide, by decide, apply_comm (by decide) {} {} f⟩

end FSM

end ScheduledDb
