import ScheduledDb.Slots.Grants

/-!
# Execution states without a job

Creating and deleting a job keep the two maps of the state machine in step.  A status update does
not look at the jobs: for a job without execution state it makes one.  Whatever runs side by side,
`noOrphans_iff` says that execution states belong to jobs all along exactly if every status update
that is applied finds its job; in `orphan_after_deletion` a job is deleted while its webhook is on
the way, and the update that follows leaves an orphan.
-/

namespace ScheduledDb

open Program

/-- Every execution state belongs to a job. -/
def FSM.NoOrphans (f : FSM) : Prop := f.executionStates.keys ⊆ f.jobs.keys

instance (f : FSM) : Decidable f.NoOrphans :=
  inferInstanceAs (Decidable (f.executionStates.keys ⊆ f.jobs.keys))

/-- If the command is a status update, its job exists. -/
def Command.FindsJob (f : FSM) (cmd : Command) : Prop :=
  cmd.type = .updateJobStatus → ∀ sc ∈ cmd.statusCommand, (f.jobs.lookup sc.jobID).isSome = true

instance (f : FSM) (cmd : Command) : Decidable (cmd.FindsJob f) :=
  inferInstanceAs (Decidable (_ → _))

namespace FSM

lemma noOrphans_iff_lookup {f : FSM} : f.NoOrphans ↔
    ∀ id, (f.executionStates.lookup id).isSome = true → (f.jobs.lookup id).isSome = true := by
  simp only [NoOrphans, Finset.subset_iff, Finmap.mem_keys, Finmap.lookup_isSome]

variable {f : FSM} {faults : ColdFaults} {cmd : Command}

lemma noOrphans_statusUpdate_iff (h : f.NoOrphans) {sc : StatusCommand}
    (htype : cmd.type = .updateJobStatus) (hsc : cmd.statusCommand = some sc) :
    (f.apply faults cmd).1.NoOrphans ↔ (f.jobs.lookup sc.jobID).isSome = true := by
  rw [apply_eq_statusUpdate htype hsc, noOrphans_iff_lookup,
    (sameJobs_apply (statusUpdate_leavesJobs sc) f faults).jobs]
  constructor
  · intro hafter
    exact hafter sc.jobID (isSome_lookup_statusUpdate faults f sc)
  · intro hjob id hstate
    by_cases hid : id = sc.jobID
    · rw [hid]
      exact hjob
    · rw [lookup_statusUpdate, if_neg hid] at hstate
      exact noOrphans_iff_lookup.mp h id hstate

/-- Every other command keeps the two maps in step. -/
lemma NoOrphans.apply_of_ne (h : f.NoOrphans) (htype : cmd.type ≠ .updateJobStatus) :
    (f.apply faults cmd).1.NoOrphans := by
  rw [noOrphans_iff_lookup] at h ⊢
  rw [apply_fst]
  intro id hstate
  cases heffect : f.effect faults cmd.wire with
  | putJob job =>
    rw [heffect] at hstate
    simp only [Effect.act, Finmap.lookup_insert_ite] at hstate ⊢
    split_ifs at hstate ⊢
    · rfl
    · exact h id hstate
  | dropJob dropped =>
    rw [heffect] at hstate
    simp only [Effect.act, Finmap.lookup_erase_ite] at hstate ⊢
    split_ifs at hstate ⊢
    · exact hstate
    · exact h id hstate
  | putState written new =>
    rcases putState_cases heffect with ⟨sc, hupdate, _⟩ | ⟨_, old, kept, hold, rfl⟩
    · exact absurd hupdate htype
    · rw [heffect] at hstate
      simp only [Effect.act, Finmap.lookup_insert_ite] at hstate
      split_ifs at hstate with hid
      · exact h id (by rw [hid, hold]; rfl)
      · exact h id hstate
  | _ =>
    rw [heffect] at hstate
    exact h id hstate

/-- **One command.** -/
lemma noOrphans_apply_iff (h : f.NoOrphans) :
    (f.apply faults cmd).1.NoOrphans ↔ cmd.FindsJob f := by
  by_cases htype : cmd.type = .updateJobStatus
  · cases hsc : cmd.statusCommand with
    | none =>
      have hsame : (f.apply faults cmd).1 = f := by
        simp [FSM.apply, Command.wire, applyCommandInternal, htype, hsc]
      simpa [hsame, Command.FindsJob, hsc] using h
    | some sc => simpa [Command.FindsJob, htype, hsc] using noOrphans_statusUpdate_iff h htype hsc
  · simpa [Command.FindsJob, htype] using h.apply_of_ne htype

end FSM

/-- A status update that gets applied finds its job. -/
def FindsJob (c : Config Act Node) (_ : ℕ) (β : Type) (a : Act β) (e : Env) : Prop :=
  ∀ cmd ∈ a.command, e.applies = true → cmd.FindsJob c.state.fsm

instance (c : Config Act Node) (tid : ℕ) (β : Type) (a : Act β) (e : Env) :
    Decidable (FindsJob c tid β a e) :=
  inferInstanceAs (Decidable (∀ cmd ∈ a.command, _))

/-- **One step**, of any thread. -/
lemma noOrphans_handle_iff (c : Config Act Node) (tid : ℕ) (β : Type) (a : Act β) (e : Env)
    (h : c.state.fsm.NoOrphans) :
    (handle tid β a e c.state).1.fsm.NoOrphans ↔ FindsJob c tid β a e := by
  rw [handle_fsm]
  cases a with
  | raftApply cmd =>
    simp only [Act.fsm, FindsJob, Act.command, Option.mem_some_iff, forall_eq']
    split_ifs with happlies
    · simpa [happlies] using FSM.noOrphans_apply_iff h
    · simpa [happlies] using h
  | _ => simpa [Act.fsm, FindsJob, Act.command] using h

/-- **No orphans**: whatever programs run side by side and however their steps are interleaved,
every execution state belongs to a job all along the run, exactly if every status update that gets
applied finds its job. -/
theorem noOrphans_iff (c : Config Act Node) (sched : List (ℕ × Env))
    (hstart : c.state.fsm.NoOrphans) :
    (∀ done, done <+: sched → (c.run handle done).state.fsm.NoOrphans) ↔
      Config.Along handle FindsJob c sched :=
  Config.forall_prefix_iff (I := fun n : Node => n.fsm.NoOrphans) handle noOrphans_handle_iff sched
    hstart

/-- A job is to be executed, and to be deleted. -/
def executeAndDelete : Config Act Node where
  state :=
    { fsm := (newFSM.apply {}
        { type := .createJob
          job := some { id := "a", type := .unico, webhookURL := "http://h" } }).1
      queue := newPersistentSlotQueue 0 }
  threads := fun t =>
    (if t = 0 then Party.execute ⟨"n", 3⟩ { id := "a", type := .unico, webhookURL := "http://h" }
    else if t = 1 then .deleteJob else .idle).program "a"

/-- One after the other: no orphan. -/
theorem noOrphans_executed_then_deleted :
    let sched := List.replicate 20 (0, Env.calm 7) ++ List.replicate 20 (1, Env.calm 7)
    Config.check handle (Config.test FindsJob) executeAndDelete sched = true ∧
      (executeAndDelete.run handle sched).state.fsm.NoOrphans := by
  intro sched
  have hcheck : Config.check handle (Config.test FindsJob) executeAndDelete sched = true := by
    decide +kernel
  exact ⟨hcheck, (noOrphans_iff executeAndDelete sched (by decide)).mpr
    (Config.along_of_test handle hcheck) sched List.prefix_rfl⟩

/-- **An orphan**: the job is deleted while its webhook is called, and marking it as completed, which
the state machine rejects, leaves an execution state behind. -/
theorem orphan_after_deletion :
    let final := (executeAndDelete.run handle (List.replicate 10 (0, Env.calm 7)
      ++ List.replicate 20 (1, Env.calm 7) ++ List.replicate 20 (0, Env.calm 7))).state.fsm
    (final.jobs.lookup "a").isNone = true ∧
      (final.executionStates.lookup "a").map JobExecutionState.status = some .pending := by
  decide +kernel

end ScheduledDb
