import ScheduledDb.Store.Codec
import ScheduledDb.Store.Status

/-!
# A snapshot comes back as it was

`FSM.Apply` and `FSM.Restore` of `raft_adapter.go` on the data they are handed.  Everything in a
state machine that has only applied log entries has been read from one, or made of what has been
read; so it is legible, and writing a snapshot and restoring it into any state machine gives the
same jobs, slots, marks of cold slots, execution states and counters.
-/

namespace ScheduledDb

open Machine JobExecutionState Finmap

/-! ## Reading twice -/

lemma Job.read_read (j : Job) : j.read.read = j.read := by
  by_cases hpayload : j.payload = some Payload.empty
  · simp [read, wire, hpayload, JobType.read_read]
  · simp [read, wire, hpayload, JobType.read_read]

lemma ExecutionAttempt.read_read (a : ExecutionAttempt) : a.read.read = a.read := by
  simp only [read, JobStatus.read_read]

lemma ExecutionAttempt.map_read_read (l : List ExecutionAttempt) :
    (l.map read).map read = l.map read := by
  rw [List.map_map]
  exact List.map_congr_left fun a _ => a.read_read

lemma JobExecutionState.read_eq_iff (s : JobExecutionState) :
    s.read = s ↔ s.status.read = s.status ∧ s.attempts.map ExecutionAttempt.read = s.attempts := by
  constructor
  · intro h
    exact ⟨congrArg status h, congrArg attempts h⟩
  · rintro ⟨hstatus, hattempts⟩
    rw [read, hstatus, hattempts]

lemma Snapshot.Legible.mapValues_wire {s : Snapshot} (h : s.Legible) :
    s.jobs.mapValues Job.wire = s.jobs := by
  refine mapValues_eq_self fun id job hlook => ?_
  have hpayload : job.read.payload = job.payload := congrArg Job.payload (h.jobs id job hlook)
  exact congrArg (fun payload => ({ job with payload := payload } : Job)) hpayload

/-! ## Commands from the log -/

namespace Command

/-- The slots of a command have 64-bit keys. -/
def KeysInRange (c : Command) : Prop :=
  (∀ slot ∈ c.slot, InRange slot.key) ∧ ∀ slot ∈ c.coldSlot, InRange slot.key

instance (c : Command) : Decidable c.KeysInRange :=
  inferInstanceAs (Decidable ((∀ slot ∈ c.slot, InRange slot.key) ∧
    ∀ slot ∈ c.coldSlot, InRange slot.key))

end Command

namespace FSM

variable {f : FSM} {state : JobExecutionState} {sc : StatusCommand} {cmd : Command}

/-- `FSM.Apply` of the data of a log entry: the state after it.  Data that is no command changes
nothing. -/
def applyData (faults : ColdFaults) (f : FSM) (data : Json) : FSM :=
  match Command.decode data with
  | none => f
  | some cmd => (f.applyCommandInternal faults cmd).1

/-- `FSM.Restore`; `none` is an error, which leaves the state machine alone. -/
def restoreData (f : FSM) (data : Json) : Option FSM :=
  (Snapshot.decode data).map fun s =>
    { jobs := s.jobs
      slots := s.slots
      coldSlotMeta := s.coldSlotMeta
      coldStore := f.coldStore
      executionStates := s.executionStates
      memoryUsage := s.memoryUsage
      jobCount := s.jobCount }

lemma applyData_encode (faults : ColdFaults) (f : FSM) (slotNil coldNil : Bool) (cmd : Command) :
    f.applyData faults (cmd.encode slotNil coldNil)
      = (f.applyCommandInternal faults cmd.read).1 := by
  rw [applyData, Command.decode_encode]

/-- On a legible snapshot `Restore` does what `FSM.restore` says. -/
lemma restoreData_encode (f : FSM) {s : Snapshot} (h : s.Legible) (slotNil : ℤ → Bool)
    (stateNil : String → Bool) :
    f.restoreData (s.encode slotNil stateNil) = some (f.restore s) := by
  rw [restoreData, Snapshot.decode_encode h, Option.map_some, restore, Snapshot.wire,
    h.mapValues_wire]

/-! ## What the state machine holds is legible -/

/-- A status update takes the status from the command and leaves the attempts. -/
lemma read_update (hstate : state.read = state) (hsc : sc.status.read = sc.status) :
    (state.update sc).read = state.update sc := by
  rw [read_eq_iff] at hstate ⊢
  rw [update_status, update_attempts]
  exact ⟨hsc, hstate.2⟩

lemma read_stateFor (h : f.getSnapshot.Legible) (sc : StatusCommand) :
    (f.stateFor sc).read = f.stateFor sc := by
  cases hstate : f.executionStates.lookup sc.jobID with
  | none =>
    simp only [stateFor, hstate]
    rfl
  | some state => simpa [stateFor, hstate] using h.executionStates sc.jobID state hstate

/-- What a command that has been read writes to an execution state. -/
lemma read_of_writesState (h : f.getSnapshot.Legible) (hsc : cmd.read.statusCommand = some sc)
    (hwrite : WritesState f cmd.read sc state) : state.read = state := by
  obtain ⟨sc', _, rfl⟩ := Option.map_eq_some_iff.mp hsc
  cases hwrite with
  | update _ =>
    split_ifs
    · exact read_update (read_stateFor h _) sc'.status.read_read
    · exact read_stateFor h _
  | record _ found arg =>
    obtain ⟨attempt, _, rfl⟩ := Option.map_eq_some_iff.mp arg
    obtain ⟨hstatus, hattempts⟩ :=
      (read_eq_iff _).mp (h.executionStates _ _ found)
    refine (read_eq_iff _).mpr ⟨hstatus, ?_⟩
    simp [hattempts, ExecutionAttempt.read_read]
  | prune _ found =>
    obtain ⟨hstatus, _⟩ := (read_eq_iff _).mp (h.executionStates _ _ found)
    exact (read_eq_iff _).mpr
      ⟨hstatus, ExecutionAttempt.map_read_read cmd.attempts⟩

/-- **A command from the log keeps the state legible.** -/
lemma legible_applyCommandInternal (h : f.getSnapshot.Legible) (faults : ColdFaults)
    (hkeys : cmd.KeysInRange) : (f.applyCommandInternal faults cmd.read).1.getSnapshot.Legible := by
  rw [applyCommandInternal_fst]
  have heff := f.effectOf faults cmd.read
  cases he : f.effect faults cmd.read with
  | none => exact h
  | putJob job =>
    rw [he] at heff
    cases heff with
    | putJob _ arg =>
      obtain ⟨job', _, rfl⟩ := Option.map_eq_some_iff.mp arg
      refine ⟨?_, h.slots, h.coldSlotMeta, ?_⟩
      · intro id job hlook
        rcases lookup_of_insert hlook with ⟨_, rfl⟩ | hlook
        · exact job'.read_read
        · exact h.jobs id job hlook
      · intro id state hlook
        rcases lookup_of_insert hlook with ⟨_, rfl⟩ | hlook
        · rfl
        · exact h.executionStates id state hlook
  | dropJob id =>
    refine ⟨?_, h.slots, h.coldSlotMeta, ?_⟩
    · exact fun id' job hlook => h.jobs id' job (lookup_of_erase hlook)
    · exact fun id' state hlook => h.executionStates id' state (lookup_of_erase hlook)
  | putSlot slot =>
    rw [he] at heff
    cases heff with
    | putSlot _ arg =>
      refine ⟨h.jobs, ?_, h.coldSlotMeta, h.executionStates⟩
      intro key slot' hlook
      rcases lookup_of_insert hlook with ⟨rfl, _⟩ | hlook
      · exact hkeys.1 slot arg
      · exact h.slots key slot' hlook
  | dropSlot key =>
    refine ⟨h.jobs, ?_, ?_, h.executionStates⟩
    · exact fun key' slot hlook => h.slots key' slot (lookup_of_erase hlook)
    · exact fun key' hkey' => h.coldSlotMeta key' (Finset.mem_of_mem_erase hkey')
  | archive slot =>
    rw [he] at heff
    cases heff with
    | archive _ arg _ =>
      refine ⟨h.jobs, ?_, ?_, h.executionStates⟩
      · exact fun key' slot' hlook => h.slots key' slot' (lookup_of_erase hlook)
      · intro key' hkey'
        rcases Finset.mem_insert.mp hkey' with rfl | hkey'
        · exact hkeys.2 slot arg
        · exact h.coldSlotMeta key' hkey'
  | unarchive key =>
    rw [he] at heff
    cases heff with
    | unarchive _ _ scan _ =>
      refine ⟨h.jobs, ?_, ?_, h.executionStates⟩
      · intro key' slot hlook
        simp only [Effect.act, getSnapshot] at hlook
        split at hlook
        · rcases lookup_of_insert hlook with ⟨rfl, _⟩ | hlook
          · exact inRange_of_scanKey scan
          · exact h.slots key' slot hlook
        · exact h.slots key' slot hlook
      · exact fun key' hkey' => h.coldSlotMeta key' (Finset.mem_of_mem_erase hkey')
  | putState id state =>
    obtain ⟨sc, hsc, rfl, hwrite⟩ := putState_inversion he
    refine ⟨h.jobs, h.slots, h.coldSlotMeta, ?_⟩
    intro id' state' hlook
    rcases lookup_of_insert hlook with ⟨_, rfl⟩ | hlook
    · exact read_of_writesState h hsc hwrite
    · exact h.executionStates id' state' hlook
  | setMemoryUsage n | setJobCount n => exact ⟨h.jobs, h.slots, h.coldSlotMeta, h.executionStates⟩

/-! ## Round trip -/

/-- Data written for a command of the store or the status tracker. -/
def IsEntry (data : Json) : Prop :=
  ∃ (cmd : Command) (slotNil coldNil : Bool), cmd.KeysInRange ∧ data = cmd.encode slotNil coldNil

lemma legible_applyData (h : f.getSnapshot.Legible) (faults : ColdFaults) {data : Json}
    (hdata : IsEntry data) : (f.applyData faults data).getSnapshot.Legible := by
  obtain ⟨cmd, slotNil, coldNil, hkeys, rfl⟩ := hdata
  rw [applyData_encode]
  exact legible_applyCommandInternal h faults hkeys

lemma legible_blank (coldStore : Option (Finmap fun _ : ℤ => SlotData)) :
    (blank coldStore).getSnapshot.Legible := by
  constructor
  · simp [blank, newFSM, getSnapshot]
  · simp [blank, newFSM, getSnapshot]
  · simp [blank, newFSM, getSnapshot]
  · simp [blank, newFSM, getSnapshot]

lemma legible_log (coldStore : Option (Finmap fun _ : ℤ => SlotData))
    {log : List (ColdFaults × Json)} (hlog : ∀ entry ∈ log, IsEntry entry.2) :
    (log.foldl (fun f entry => f.applyData entry.1 entry.2)
      (blank coldStore)).getSnapshot.Legible :=
  List.foldlRecOn (motive := fun f : FSM => f.getSnapshot.Legible) log _ (legible_blank coldStore)
    fun _ hf entry hentry => legible_applyData hf entry.1 (hlog entry hentry)

lemma holdsSame_restore (h : f.getSnapshot.Legible) (g : FSM) :
    (g.restore f.getSnapshot).HoldsSame f where
  jobs := h.mapValues_wire
  slots := rfl
  coldSlotMeta := rfl
  executionStates := rfl
  memoryUsage := rfl
  jobCount := rfl

/-- **Snapshot round trip.**  Apply any entries to a new state machine, write its snapshot and
restore it into any other state machine: that one then has the same jobs, slots, marks of cold slots,
execution states and counters, and its cold store is its own. -/
theorem snapshot_round_trip (coldStore : Option (Finmap fun _ : ℤ => SlotData))
    (log : List (ColdFaults × Json)) (hlog : ∀ entry ∈ log, IsEntry entry.2) (g : FSM)
    (slotNil : ℤ → Bool) (stateNil : String → Bool) :
    let f := log.foldl (fun f entry => f.applyData entry.1 entry.2) (blank coldStore)
    ∃ g', g.restoreData (f.getSnapshot.encode slotNil stateNil) = some g' ∧
      g'.HoldsSame f ∧ g'.coldStore = g.coldStore := by
  intro f
  have hlegible := legible_log coldStore hlog
  exact ⟨g.restore f.getSnapshot, g.restoreData_encode hlegible slotNil stateNil,
    holdsSame_restore hlegible g, rfl⟩

/-- A job due at time `0`, with a slot, an attempt that has been pruned, and an archived slot. -/
def sampleCommands : List Command :=
  [{ type := .createJob
     job := some
       { id := "a", type := .unico, timestamp := some 0, payload := some ⟨"\x7b\"n\":1\x7d"⟩ } },
   { type := .createSlot, slot := some ⟨-1, -10, -1, []⟩ },
   { type := .archiveSlot, coldSlot := some ⟨5, 50, 59, ["a"]⟩ },
   { type := .updateJobStatus
     statusCommand := some { jobID := "a", status := .inProgress, nodeID := "n", timestamp := 7 } },
   { type := .recordAttempt
     statusCommand := some
      { jobID := "a", timestamp := 7,
        attempt := some { attemptNum := 1, startTime := 7, nodeID := "n" } } },
   { type := .pruneAttempts, statusCommand := some { jobID := "a", timestamp := 9 } }]

theorem snapshot_round_trip_sample :
    let log := sampleCommands.map fun cmd => (({} : ColdFaults), cmd.encode true false)
    let f := log.foldl (fun f entry => f.applyData entry.1 entry.2) (blank (some ∅))
    f.jobs.lookup "a"
        = some
          { id := "a", type := .unico, timestamp := some 0, payload := some ⟨"\x7b\"n\":1\x7d"⟩ } ∧
      (f.executionStates.lookup "a").map (fun state => (state.attemptCount, state.attempts))
        = some (1, []) ∧
      f.coldSlotMeta = {5} ∧
      ∃ g', newFSM.restoreData (f.getSnapshot.encode (fun _ => false) fun _ => true) = some g' ∧
        g'.HoldsSame f ∧ g'.coldStore = newFSM.coldStore := by
  refine ⟨by decide +kernel, by decide +kernel, by decide +kernel, ?_⟩
  refine snapshot_round_trip (some ∅) _ (fun entry hentry => ?_) newFSM _ _
  obtain ⟨cmd, hcmd, rfl⟩ := List.mem_map.mp hentry
  have hkeys : ∀ cmd ∈ sampleCommands, cmd.KeysInRange := by decide
  exact ⟨cmd, true, false, hkeys cmd hcmd, rfl⟩

end FSM

end ScheduledDb
