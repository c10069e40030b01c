import ScheduledDb.Store.StaleCopies

/-!
# Pruning old attempts

`PruneOldAttempts` keeps, for every job, the attempts of its copy that are recent enough, and has
the whole list replaced.  An attempt that is recorded between the read and the command is in the
state, but not in the copy, and it is lost however recent it is (`recorded_attempt_lost`).

`pruned_iff` says for which runs pruning removes only old attempts: those in which every attempt
that is recorded for a job before its pruning is applied is old itself.
-/

namespace ScheduledDb

open Machine Program Command Event List

/-! ## The attempts of a job -/

/-- The attempt that was recorded for the job, if this is an accepted recording. -/
def Event.recordsAttempt (jobID : String) : Event → Option ExecutionAttempt
  | applied _ cmd response =>
    if cmd.type = .recordAttempt ∧ response.isError = false then
      (cmd.statusCommand.filter fun sc => sc.jobID = jobID).bind StatusCommand.attempt
    else none
  | _ => none

/-- The attempts recorded for a job, oldest first. -/
def attemptsRecorded (jobID : String) (events : List (ℕ × Event)) : List ExecutionAttempt :=
  events.filterMap fun x => x.2.recordsAttempt jobID

@[simp] lemma attemptsRecorded_append (jobID : String) (l l' : List (ℕ × Event)) :
    attemptsRecorded jobID (l ++ l') = attemptsRecorded jobID l ++ attemptsRecorded jobID l' :=
  filterMap_append

@[simp] lemma attemptsRecorded_singleton (jobID : String) (t : ℕ) (x : Event) :
    attemptsRecorded jobID [(t, x)] = (x.recordsAttempt jobID).toList := by
  cases h : x.recordsAttempt jobID <;> simp [attemptsRecorded, h]

lemma Event.recordsAttempt_of_not_isApplied {x : Event} (h : x.isApplied = false)
    (jobID : String) : x.recordsAttempt jobID = none := by
  cases x with
  | applied before cmd response => cases h
  | webhook job => rfl
  | statusChanged oldStatus newStatus => rfl

/-- A pruning of the job's attempts. -/
def Command.Prunes (jobID : String) (cmd : Command) : Prop :=
  cmd.type = .pruneAttempts ∧ ∃ sc ∈ cmd.statusCommand, sc.jobID = jobID

instance (jobID : String) (cmd : Command) : Decidable (cmd.Prunes jobID) :=
  inferInstanceAs (Decidable (_ ∧ _))

/-- A command that removes no attempt. -/
def Command.KeepsHistory (cmd : Command) : Prop :=
  cmd.type ≠ .createJob ∧ cmd.type ≠ .deleteJob ∧ cmd.type ≠ .pruneAttempts

namespace FSM

variable {f : FSM} {cmd : Command} {jobID : String} {sc : StatusCommand}

/-- The recorded attempts of a job. -/
def historyOf (f : FSM) (jobID : String) : List ExecutionAttempt :=
  ((f.executionStates.lookup jobID).map JobExecutionState.attempts).getD []

lemma historyOf_congr {f' : FSM}
    (h : f'.executionStates.lookup jobID = f.executionStates.lookup jobID) :
    f'.historyOf jobID = f.historyOf jobID := by
  rw [historyOf, historyOf, h]

lemma recordsAttempt_eq_some {response : Response} {a : ExecutionAttempt} :
    (applied f cmd response).recordsAttempt jobID = some a ↔
      cmd.type = .recordAttempt ∧ response.isError = false ∧ ∃ sc, cmd.statusCommand = some sc ∧
        sc.jobID = jobID ∧ sc.attempt = some a := by
  simp only [recordsAttempt]
  split_ifs with h
  · simp only [h, true_and, Option.bind_eq_some_iff, Option.filter_eq_some_iff, decide_eq_true_eq,
      and_assoc]
  · simp only [false_iff]
    exact fun hall => h ⟨hall.1, hall.2.1⟩

lemma recordsAttempt_of_type_ne (h : cmd.type ≠ .recordAttempt) (response : Response) :
    (applied f cmd response).recordsAttempt jobID = none := by
  simp [recordsAttempt, h]

lemma recordsAttempt_of_subject_ne (h : cmd.subject ≠ some jobID) (response : Response) :
    (applied f cmd response).recordsAttempt jobID = none := by
  rw [Option.eq_none_iff_forall_ne_some]
  intro a ha
  obtain ⟨htype, _, sc, hsc, rfl, _⟩ := recordsAttempt_eq_some.mp ha
  exact h (by simp [subject, htype, hsc])

lemma historyOf_recordAttempt (faults : ColdFaults) (htype : cmd.type = .recordAttempt)
    (hsc : cmd.statusCommand = some sc) :
    (f.apply faults cmd).1.historyOf sc.jobID
      = f.historyOf sc.jobID ++
        ((applied f cmd (f.apply faults cmd).2).recordsAttempt sc.jobID).toList := by
  cases hstate : f.executionStates.lookup sc.jobID with
  | none =>
    simp [apply, applyCommandInternal, wire, htype, hsc, applyRecordAttempt, hstate,
      historyOf, recordsAttempt, Response.isError]
  | some state =>
    cases hattempt : sc.attempt with
    | none =>
      simp [apply, applyCommandInternal, wire, htype, hsc, applyRecordAttempt, hstate,
        hattempt, historyOf, recordsAttempt, Response.isError]
    | some attempt =>
      simp [apply, applyCommandInternal, wire, htype, hsc, applyRecordAttempt, hstate,
        hattempt, historyOf, recordsAttempt, Response.isError, Option.filter]

lemma historyOf_updateJobStatus (faults : ColdFaults) (htype : cmd.type = .updateJobStatus)
    (hsc : cmd.statusCommand = some sc) :
    (f.apply faults cmd).1.historyOf sc.jobID = f.historyOf sc.jobID := by
  have hattempts : (f.stateFor sc).attempts = f.historyOf sc.jobID := by
    cases hstate : f.executionStates.lookup sc.jobID with
    | none => simp [stateFor, historyOf, hstate, newExecutionState]
    | some state => simp [stateFor, historyOf, hstate]
  rw [apply_eq_statusUpdate htype hsc, historyOf, lookup_statusUpdate, if_pos rfl]
  split_ifs
  · simpa using hattempts
  · simpa using hattempts

lemma historyOf_pruneAttempts (faults : ColdFaults) (htype : cmd.type = .pruneAttempts)
    (hsc : cmd.statusCommand = some sc)
    (hknown : (f.executionStates.lookup sc.jobID).isSome = true) :
    (f.apply faults cmd).1.historyOf sc.jobID = cmd.attempts := by
  obtain ⟨state, hstate⟩ := Option.isSome_iff_exists.mp hknown
  simp [apply, applyCommandInternal, wire, htype, hsc, applyPruneAttempts, hstate,
    historyOf]

/-- **What commands do to the attempts of a job**: a pruning replaces them, a recording appends
one, nothing else touches them as long as the job is there. -/
lemma historyOf_apply (faults : ColdFaults) (hcreate : cmd.type ≠ .createJob)
    (hdelete : cmd.type ≠ .deleteJob)
    (hknown : cmd.Prunes jobID → (f.executionStates.lookup jobID).isSome = true) :
    (f.apply faults cmd).1.historyOf jobID
      = if cmd.Prunes jobID then cmd.attempts
        else f.historyOf jobID
          ++ ((applied f cmd (f.apply faults cmd).2).recordsAttempt jobID).toList := by
  by_cases hsubject : cmd.subject = some jobID
  · have harg : cmd.subject = cmd.statusCommand.map StatusCommand.jobID →
        ∃ sc, cmd.statusCommand = some sc ∧ sc.jobID = jobID :=
      fun h => Option.map_eq_some_iff.mp (h.symm.trans hsubject)
    cases htype : cmd.type with
    | createJob => exact absurd htype hcreate
    | deleteJob => exact absurd htype hdelete
    | updateJobStatus =>
      obtain ⟨sc, hsc, rfl⟩ := harg (by simp [subject, htype])
      rw [if_neg (by simp [Prunes, htype]), historyOf_updateJobStatus faults htype hsc,
        recordsAttempt_of_type_ne (by simp [htype])]
      simp
    | recordAttempt =>
      obtain ⟨sc, hsc, rfl⟩ := harg (by simp [subject, htype])
      rw [if_neg (by simp [Prunes, htype]), historyOf_recordAttempt faults htype hsc]
    | pruneAttempts =>
      obtain ⟨sc, hsc, rfl⟩ := harg (by simp [subject, htype])
      have hprunes : cmd.Prunes sc.jobID := ⟨htype, sc, hsc, rfl⟩
      rw [if_pos hprunes, historyOf_pruneAttempts faults htype hsc (hknown hprunes)]
    | _ => simp [subject, htype] at hsubject
  · have hprune : ¬ cmd.Prunes jobID := by
      rintro ⟨htype, sc, hsc, rfl⟩
      exact hsubject (by simp [subject, htype, Option.mem_def.mp hsc])
    rw [historyOf_congr (lookup_apply_of_subject_ne hsubject faults f), if_neg hprune,
      recordsAttempt_of_subject_ne hsubject]
    simp

/-- No execution state is removed but by a deletion. -/
lemma isSome_apply (faults : ColdFaults) (hdelete : cmd.type ≠ .deleteJob)
    (h : (f.executionStates.lookup jobID).isSome = true) :
    ((f.apply faults cmd).1.executionStates.lookup jobID).isSome = true := by
  rw [apply_fst]
  cases heffect : f.effect faults cmd.wire with
  | dropJob id => exact absurd (subject_of_dropJob heffect).1 hdelete
  | putJob job | putState id state =>
    simp only [Effect.act, Finmap.lookup_insert_ite]
    split_ifs
    · rfl
    · exact h
  | _ => exact h

end FSM

/-! ## Pruning -/

/-- A pruning of the job's attempts was applied. -/
def Event.Prunes (jobID : String) : Event → Prop
  | applied _ cmd _ => cmd.Prunes jobID
  | _ => False

instance (jobID : String) : ∀ x : Event, Decidable (x.Prunes jobID)
  | .applied _ cmd _ => inferInstanceAs (Decidable (cmd.Prunes jobID))
  | .webhook _ => inferInstanceAs (Decidable False)
  | .statusChanged _ _ => inferInstanceAs (Decidable False)

lemma Event.not_prunes_of_not_isApplied {x : Event} (h : x.isApplied = false) (jobID : String) :
    ¬ x.Prunes jobID := by
  cases x with
  | applied before cmd response => cases h
  | webhook job => exact id
  | statusChanged oldStatus newStatus => exact id

namespace StatusTracker

/-- `PruneOldAttempts` on a leader, from the moment it reads. -/
def prunePass (retention : Duration) : Program Act Unit :=
  passOver fun allStates now => forEach allStates (pruneAttempts (cutoff retention now))

lemma pruneOldAttempts_eq (retention : Duration) :
    (pruneOldAttempts retention >>= fun _ => pure ())
      = (do if ← perform .isLeader then prunePass retention else pure ()) := by
  have hdone : ∀ p : Program Act Unit, (p >>= fun _ => done ()) = p := by
    intro p
    induction p with
    | done a => rfl
    | step a k ih => exact congrArg (step a) (funext ih)
  simp only [pruneOldAttempts, prunePass, passOver, perform_bind, step_bind]
  refine congrArg (step Act.isLeader) (funext fun leader => ?_)
  cases leader with
  | false => rfl
  | true => simp [bind_bind, hdone]

/-- The attempts that are kept. -/
def recent (cutoffTime : ℤ) (attempts : List ExecutionAttempt) : List ExecutionAttempt :=
  attempts.filter fun attempt => cutoffTime ≤ attempt.startTime

/-- The attempts that are too old. -/
def old (cutoffTime : ℤ) (attempts : List ExecutionAttempt) : List ExecutionAttempt :=
  attempts.filter fun attempt => attempt.startTime < cutoffTime

/-- All recent attempts are still there, in their order, and of the old ones only some that the pass
has not read. -/
def Pruned (cutoffTime : ℤ) (read recorded final : List ExecutionAttempt) : Prop :=
  (recent cutoffTime (read ++ recorded)).Sublist final ∧
    (old cutoffTime final).Sublist (old cutoffTime recorded)

instance (cutoffTime : ℤ) (read recorded final : List ExecutionAttempt) :
    Decidable (Pruned cutoffTime read recorded final) :=
  inferInstanceAs (Decidable (_ ∧ _))

section Lists

variable {cutoffTime : ℤ} {l l' : List ExecutionAttempt}

@[simp] lemma recent_append :
    recent cutoffTime (l ++ l') = recent cutoffTime l ++ recent cutoffTime l' :=
  filter_append ..

@[simp] lemma old_append : old cutoffTime (l ++ l') = old cutoffTime l ++ old cutoffTime l' :=
  filter_append ..

@[simp] lemma recent_recent : recent cutoffTime (recent cutoffTime l) = recent cutoffTime l := by
  simp [recent]

@[simp] lemma old_recent : old cutoffTime (recent cutoffTime l) = [] := by
  simp only [old, recent, filter_filter, filter_eq_nil_iff]
  intro attempt _
  simp

lemma recent_eq_nil : recent cutoffTime l = [] ↔ ∀ attempt ∈ l, attempt.startTime < cutoffTime := by
  simp [recent, filter_eq_nil_iff]

lemma old_eq_nil : old cutoffTime l = [] ↔ recent cutoffTime l = l := by
  simp [old, recent, filter_eq_nil_iff, filter_eq_self]

/-- What a pruning leaves is right if all that was recorded before it is old. -/
lemma pruned_split_iff {read r₁ r₂ : List ExecutionAttempt} :
    Pruned cutoffTime read (r₁ ++ r₂) (recent cutoffTime read ++ r₂) ↔
      ∀ attempt ∈ r₁, attempt.startTime < cutoffTime := by
  rw [← recent_eq_nil]
  constructor
  · rintro ⟨hrecent, -⟩
    have hle := (hrecent.filter fun attempt => cutoffTime ≤ attempt.startTime).length_le
    change (recent cutoffTime (recent cutoffTime (read ++ (r₁ ++ r₂)))).length
      ≤ (recent cutoffTime (recent cutoffTime read ++ r₂)).length at hle
    simp only [recent_recent, recent_append, length_append] at hle
    exact eq_nil_of_length_eq_zero (by omega)
  · intro hnone
    rw [Pruned]
    simp only [recent_append, old_append, old_recent, hnone, nil_append]
    exact ⟨Sublist.append (Sublist.refl _) filter_sublist,
      sublist_append_right _ _⟩

/-- If nothing is to be pruned, all that is recorded stays. -/
lemma pruned_of_recent {read recorded : List ExecutionAttempt} (h : old cutoffTime read = []) :
    Pruned cutoffTime read recorded (read ++ recorded) := by
  rw [Pruned]
  simp only [old_append, h, nil_append]
  exact ⟨filter_sublist, Sublist.refl _⟩

end Lists

/-- A command of the pass: the recent attempts of the copy. -/
def PrunesFrom (copy : FSM) (cutoffTime : ℤ) (cmd : Command) : Prop :=
  ∃ sc, cmd = FSM.attemptPrune sc (recent cutoffTime (copy.historyOf sc.jobID)) ∧
    (copy.executionStates.lookup sc.jobID).isSome = true

/-- What is known about the attempts of a job: what the last pruning has left and what was recorded
since, or, if there was none, all there was and was recorded. -/
def HistorySince (copy : FSM) (cutoffTime : ℤ) (jobID : String) (events : List (ℕ × Event))
    (attempts : List ExecutionAttempt) : Prop :=
  (∀ x ∈ events, ¬ x.2.Prunes jobID) ∧
      attempts = copy.historyOf jobID ++ attemptsRecorded jobID events ∨
    ∃ l x l', events = l ++ x :: l' ∧ x.2.Prunes jobID ∧ (∀ y ∈ l', ¬ y.2.Prunes jobID) ∧
      attemptsRecorded jobID [x] = [] ∧
      attempts = recent cutoffTime (copy.historyOf jobID) ++ attemptsRecorded jobID l'

variable {events l' : List (ℕ × Event)} {attempts : List ExecutionAttempt} {copy : FSM}
  {jobID : String} {cutoffTime : ℤ} {y : ℕ × Event} {s n : Node} {l : ℕ → Set String} {β : Type}
  {pass : ℕ}

/-- One more event that is no pruning of the job. -/
lemma HistorySince.append (h : HistorySince copy cutoffTime jobID events attempts)
    (hy : ¬ y.2.Prunes jobID) :
    HistorySince copy cutoffTime jobID (events ++ [y])
      (attempts ++ attemptsRecorded jobID [y]) := by
  rcases h with ⟨hnone, rfl⟩ | ⟨l, x, l', rfl, hx, hl', hrecorded, rfl⟩
  · refine Or.inl ⟨fun x hx => ?_, by rw [attemptsRecorded_append, append_assoc]⟩
    rcases mem_append.mp hx with hx | hx
    · exact hnone x hx
    · rwa [mem_singleton.mp hx]
  · refine Or.inr ⟨l, x, l' ++ [y], by simp, hx, fun z hz => ?_, hrecorded,
      by rw [attemptsRecorded_append, append_assoc]⟩
    rcases mem_append.mp hz with hz | hz
    · exact hl' z hz
    · rwa [mem_singleton.mp hz]

/-- What is known about all jobs: none is lost, and their attempts. -/
structure HistoryFrom (copy : FSM) (cutoffTime : ℤ) (events : List (ℕ × Event)) (f : FSM) :
    Prop where
  known : ∀ jobID, (copy.executionStates.lookup jobID).isSome = true →
    (f.executionStates.lookup jobID).isSome = true
  history : ∀ jobID, HistorySince copy cutoffTime jobID events (f.historyOf jobID)

namespace HistoryFrom

variable {copy f : FSM} {cutoffTime : ℤ} {events : List (ℕ × Event)}

lemma refl (f : FSM) : HistoryFrom f cutoffTime [] f where
  known := fun _ h => h
  history := fun jobID => Or.inl ⟨by simp, by simp [attemptsRecorded]⟩

/-- A command is applied: a record is added, or a pruning starts anew from the copy. -/
lemma apply (h : HistoryFrom copy cutoffTime events f) (tid : ℕ) (faults : ColdFaults)
    {cmd : Command} (hcmd : cmd.KeepsHistory ∨ PrunesFrom copy cutoffTime cmd) :
    HistoryFrom copy cutoffTime (events ++ [(tid, .applied f cmd (f.apply faults cmd).2)])
      (f.apply faults cmd).1 := by
  have htypes : cmd.type ≠ .createJob ∧ cmd.type ≠ .deleteJob := by
    rcases hcmd with hkeeps | ⟨sc, rfl, _⟩
    · exact ⟨hkeeps.1, hkeeps.2.1⟩
    · simp [FSM.attemptPrune]
  -- a pruning is one of the pass
  have hpass : ∀ {jobID}, cmd.Prunes jobID →
      cmd.attempts = recent cutoffTime (copy.historyOf jobID) ∧
        (f.executionStates.lookup jobID).isSome = true := by
    intro jobID hprunes
    rcases hcmd with hkeeps | ⟨sc, rfl, hknown⟩
    · exact absurd hprunes.1 hkeeps.2.2
    · obtain ⟨_, sc', hsc', rfl⟩ := hprunes
      obtain rfl : sc = sc' := Option.some.inj hsc'
      exact ⟨rfl, h.known _ hknown⟩
  refine ⟨fun jobID hknown => FSM.isSome_apply faults htypes.2 (h.known jobID hknown),
    fun jobID => ?_⟩
  rw [FSM.historyOf_apply faults htypes.1 htypes.2 fun hprunes => (hpass hprunes).2]
  by_cases hprunes : cmd.Prunes jobID
  · have hno : cmd.type ≠ .recordAttempt := by simp [hprunes.1]
    rw [if_pos hprunes, (hpass hprunes).1]
    refine Or.inr ⟨events, _, [], rfl, hprunes, by simp, ?_, by simp [attemptsRecorded]⟩
    rw [attemptsRecorded_singleton, FSM.recordsAttempt_of_type_ne hno]
    rfl
  · rw [if_neg hprunes, ← attemptsRecorded_singleton jobID tid]
    exact (h.history jobID).append hprunes

lemma other (h : HistoryFrom copy cutoffTime events f) (tid : ℕ) {x : Event}
    (hx : x.isApplied = false) : HistoryFrom copy cutoffTime (events ++ [(tid, x)]) f where
  known := h.known
  history := fun jobID => by
    have happend := (h.history jobID).append (y := (tid, x))
      (not_prunes_of_not_isApplied hx jobID)
    rw [attemptsRecorded_singleton, recordsAttempt_of_not_isApplied hx] at happend
    simpa using happend

lemma step {n s : Node} (h : n.Since (HistoryFrom copy cutoffTime) s) {tid : ℕ} {β : Type}
    {a : Act β} (ha : Issues (fun cmd => cmd.KeepsHistory ∨ PrunesFrom copy cutoffTime cmd) β a)
    (e : Env) : n.Since (HistoryFrom copy cutoffTime) (handle tid β a e s).1 :=
  h.step (fun _ _ hcmd hfrom => hfrom.apply tid e.faults (ha.of_command hcmd))
    fun _ _ hx hfrom => hfrom.other tid hx

end HistoryFrom

/-! ## The pass at work -/

/-- A job needs pruning exactly if it has old attempts. -/
lemma needs_pruning_iff (cutoffTime : ℤ) (attempts : List ExecutionAttempt) :
    (attempts.length ≠ 0 ∧ attempts.length - (recent cutoffTime attempts).length > 0) ↔
      old cutoffTime attempts ≠ [] := by
  have hle : (recent cutoffTime attempts).length ≤ attempts.length := length_filter_le _ _
  simp only [ne_eq, old_eq_nil]
  constructor
  · rintro ⟨_, hpos⟩ heq
    rw [heq] at hpos
    omega
  · intro hne
    have hlt : (recent cutoffTime attempts).length ≠ attempts.length :=
      fun heq => hne (filter_sublist.eq_of_length heq)
    omega

lemma all_pruneWork (cutoffTime : ℤ) (n : Node) (e : Env) :
    All (Issues (PrunesFrom n.fsm cutoffTime))
      (forEach (n.copy e) (pruneAttempts cutoffTime)) := by
  refine all_forEach fun entry hentry => ?_
  have hlook := Node.mem_copy.mp hentry
  simp only [pruneAttempts, all_ite, perform_bind, all_step]
  refine ⟨fun _ => ⟨trivial, fun now => ?_⟩, fun _ => trivial⟩
  have hcmd : PrunesFrom n.fsm cutoffTime
      (FSM.attemptPrune { jobID := entry.1, timestamp := now }
        (recent cutoffTime entry.2.attempts)) := by
    refine ⟨{ jobID := entry.1, timestamp := now }, ?_, by simp [hlook]⟩
    rw [FSM.historyOf, hlook]
    rfl
  exact (Store.issues_of_quiet (Store.quiet_of_detached (all_applyStatusCommand hcmd))
    fun _ h => h).bind fun _ => trivial

/-- The jobs that a thread whose writes succeed has pruned. -/
def pruning : Transformer Act (Set String) := fun _ a Q pruned =>
  match a with
  | .isLeader => Q true pruned
  | .raftApply cmd => Q none {jobID | jobID ∈ pruned ∨ cmd.Prunes jobID}
  | _ => ∀ b, Q b pruned

lemma pruning_mono : pruning.Mono := by
  intro β a Q Q' pruned h hQ
  cases a with
  | isLeader => exact hQ _ _ h
  | raftApply cmd => exact hQ _ _ h
  | _ => exact fun b => hQ _ _ (h b)

/-- The pass prunes every job with old attempts. -/
lemma wpWith_pruneWork (cutoffTime : ℤ) (entries : List (Σ _ : String, JobExecutionState)) :
    wpWith pruning (forEach entries (pruneAttempts cutoffTime))
      (fun _ pruned => ∀ entry ∈ entries, old cutoffTime entry.2.attempts ≠ [] →
        entry.1 ∈ pruned) ∅ := by
  refine wpWith_mono pruning_mono (wpWith_forEach_each pruning_mono (I := fun _ => True)
    (P := fun entry pruned => old cutoffTime entry.2.attempts ≠ [] → entry.1 ∈ pruned) entries
    (fun entry _ pruned _ => ?_) trivial) fun _ _ h => h.2.1
  simp only [pruneAttempts]
  refine wpWith_ite.mpr ⟨fun _ now => ?_, fun hno => ⟨trivial, fun hold => ?_, fun _ h => h⟩⟩
  · exact ⟨trivial, fun _ => Or.inr ⟨rfl, _, rfl, rfl⟩, fun _ h hold => Or.inl (h hold)⟩
  · exact absurd ((needs_pruning_iff cutoffTime entry.2.attempts).mpr hold) hno

/-- The pass keeps track of what it has pruned, the others of nothing. -/
def own (pass t : ℕ) : Transformer Act (Set String) :=
  if t = pass then pruning else fun _ _ Q pruned => ∀ b, Q b pruned

/-- What the pass counts as pruned has been pruned. -/
def PrunedSince (n : Node) (pass : ℕ) (s : Node) (l : ℕ → Set String) : Prop :=
  n.Since (fun events _ => ∀ jobID ∈ l pass, ∃ x ∈ events, x.2.Prunes jobID) s

lemma PrunedSince.handle (h : PrunedSince n pass s l) (tid : ℕ) (a : Act β) (e : Env) :
    PrunedSince n pass (handle tid β a e s).1 l :=
  Node.Since.step h
    (fun _ _ _ hall jobID hjobID =>
      (hall jobID hjobID).imp fun _ hx => ⟨mem_append_left _ hx.1, hx.2⟩)
    (fun _ _ _ hall jobID hjobID =>
      (hall jobID hjobID).imp fun _ hx => ⟨mem_append_left _ hx.1, hx.2⟩)

lemma pruning_sound (tid : ℕ) (a : Act β) (e : Env) (Q : β → Set String → Prop)
    (he : tid = pass → e.Stable) (h : PrunedSince n pass s l) (ha : own pass tid β a Q (l tid)) :
    ∃ g, Q (handle tid β a e s).2 g ∧
      PrunedSince n pass (handle tid β a e s).1 (Function.update l tid g) := by
  have hsame : Q (handle tid β a e s).2 (l tid) → ∃ g, Q (handle tid β a e s).2 g ∧
      PrunedSince n pass (handle tid β a e s).1 (Function.update l tid g) :=
    fun hQ => ⟨l tid, hQ, by rw [Function.update_eq_self]; exact h.handle tid a e⟩
  by_cases ht : tid = pass
  · subst ht
    obtain ⟨hleader, hcommit⟩ := he rfl
    rw [own, if_pos rfl] at ha
    cases a with
    | isLeader =>
      have hanswer : (ScheduledDb.handle tid Bool .isLeader e s).2 = true := hleader
      exact hsame (hanswer ▸ ha)
    | raftApply cmd =>
      have hstep : ScheduledDb.handle tid _ (.raftApply cmd) e s
          = (s.applyCommand tid e.faults cmd, none) := by
        simp [ScheduledDb.handle, Env.applies, hcommit]
      rw [hstep]
      obtain ⟨events, htrace, hall⟩ := h
      refine ⟨_, ha, events ++ [(tid, .applied s.fsm cmd (s.fsm.apply e.faults cmd).2)], ?_, ?_⟩
      · rw [Node.applyCommand, htrace, append_assoc]
      · rw [Function.update_self]
        rintro jobID (hold | hnew)
        · exact (hall jobID hold).imp fun _ hx => ⟨mem_append_left _ hx.1, hx.2⟩
        · exact ⟨_, mem_append_right _ mem_cons_self, hnew⟩
    | _ => exact hsame (ha _)
  · rw [own, if_neg ht] at ha
    exact hsame (ha _)

/-- **A pass whose writes succeed has pruned every job with old attempts when it is done.** -/
lemma pruned_when_done {entries : List (Σ _ : String, JobExecutionState)} {c : Config Act Node}
    (hown : c.threads pass = forEach entries (pruneAttempts cutoffTime))
    (hstart : n.Since (fun _ _ => True) c.state) {sched : List (ℕ × Env)}
    (hstable : ∀ x ∈ sched, x.1 = pass → x.2.Stable)
    (hdone : ((c.run handle sched).threads pass).isDone = true) :
    ∀ entry ∈ entries, old cutoffTime entry.2.attempts ≠ [] →
      ∃ x ∈ n.newEvents (c.run handle sched).state, x.2.Prunes entry.1 := by
  have hlocal : ∀ t, wpWith (own pass t) (c.threads t) (fun _ pruned => t = pass →
      ∀ entry ∈ entries, old cutoffTime entry.2.attempts ≠ [] → entry.1 ∈ pruned) ∅ := by
    intro t
    by_cases ht : t = pass
    · subst ht
      rw [own, if_pos rfl, hown]
      exact wpWith_mono pruning_mono (wpWith_pruneWork cutoffTime entries) fun _ _ h _ => h
    · rw [own, if_neg ht]
      exact all_true.wpWith (fun _ _ _ h => h) fun _ h => absurd h ht
  obtain ⟨events, htrace, _⟩ := hstart
  obtain ⟨l, hI, hrest⟩ := Config.run_local (fun _ _ tid _ a e Q he hs _ ha =>
      pruning_sound tid a e Q he hs ha)
    (l := fun _ => ∅) ⟨events, htrace, by simp⟩ hlocal (Config.along_of_mem handle hstable c)
  have hpass := hrest pass
  cases hthread : (c.run handle sched).threads pass with
  | step a k =>
    rw [hthread] at hdone
    cases hdone
  | done a =>
    rw [hthread] at hpass
    intro entry hentry hold
    exact hI.newEvents entry.1 (hpass rfl entry hentry hold)

/-- If no pruning of the job comes after `x`, then every one before it comes earlier. -/
lemma prefix_of_last_pruning {l l₀ : List (ℕ × Event)} {x : ℕ × Event}
    (hlast : ∀ z ∈ l', ¬ z.2.Prunes jobID) (hy : y.2.Prunes jobID)
    (h : l₀ ++ [y] <+: l ++ x :: l') : l₀ <+: l := by
  rcases Nat.lt_or_ge l.length l₀.length with hlong | hshort
  · -- then `y` is one of the events after `x`
    exfalso
    have hx : l ++ [x] <+: l ++ x :: l' := ⟨l', by simp⟩
    have hlength : (l ++ [x]).length ≤ l₀.length := by
      rw [length_append]
      exact hlong
    obtain ⟨m, rfl⟩ := prefix_of_prefix_length_le hx ((prefix_append l₀ [y]).trans h)
      hlength
    rw [append_assoc, append_assoc, singleton_append,
      prefix_append_right_inj, cons_prefix_cons] at h
    exact hlast y (h.2.subset (by simp)) hy
  · exact prefix_of_prefix_length_le ((prefix_append l₀ [y]).trans h)
      (prefix_append l _) hshort

lemma mem_attemptsRecorded_mono {l : List (ℕ × Event)} (h : l <+: l') {attempt : ExecutionAttempt}
    (ha : attempt ∈ attemptsRecorded jobID l) : attempt ∈ attemptsRecorded jobID l' := by
  obtain ⟨m, rfl⟩ := h
  rw [attemptsRecorded_append]
  exact mem_append_left _ ha

/-- What is left of a job's attempts is right if nothing recent was recorded before a pruning; the
job having been pruned if it had old attempts. -/
lemma HistorySince.pruned_copy_iff (h : HistorySince copy cutoffTime jobID events attempts)
    (hneeded : old cutoffTime (copy.historyOf jobID) ≠ [] → ∃ x ∈ events, x.2.Prunes jobID) :
    Pruned cutoffTime (copy.historyOf jobID) (attemptsRecorded jobID events) attempts ↔
      ∀ l x, l ++ [x] <+: events → x.2.Prunes jobID →
        ∀ attempt ∈ attemptsRecorded jobID l, attempt.startTime < cutoffTime := by
  rcases h with ⟨hnone, rfl⟩ | ⟨l, x, l', rfl, hx, hl', hrecorded, rfl⟩
  · refine iff_of_true (pruned_of_recent ?_) fun l x hl hx => ?_
    · by_contra hold
      obtain ⟨x, hmem, hx⟩ := hneeded hold
      exact hnone x hmem hx
    · exact absurd hx (hnone x (hl.subset (by simp)))
  · have hsplit : attemptsRecorded jobID (l ++ x :: l')
        = attemptsRecorded jobID l ++ attemptsRecorded jobID l' := by
      rw [← singleton_append, attemptsRecorded_append, attemptsRecorded_append, hrecorded,
        nil_append]
    rw [hsplit, pruned_split_iff]
    constructor
    · intro hall l₀ y hl₀ hy attempt ha
      exact hall attempt (mem_attemptsRecorded_mono (prefix_of_last_pruning hl' hy hl₀) ha)
    · intro hall
      exact hall l x ⟨l', by simp⟩ hx

/-- **When pruning removes only old attempts.**  The pass `pass` reads the execution states, beside
threads that remove no attempts, and looks at the clock; its writes succeed, and it comes to its
end.  Then for every job: what was there and what was recorded since is still there as far as it is
recent, and none of the old attempts that the pass has read, if and only if every attempt that was
recorded before a pruning of the job was applied is old. -/
theorem pruned_iff (retention : Duration) (pass : ℕ) (c : Config Act Node)
    (hpass : c.threads pass = prunePass retention)
    (hothers : ∀ t, t ≠ pass → All (Issues KeepsHistory) (c.threads t)) (e e' : Env)
    (s₁ s₂ : List (ℕ × Env)) (hs₁ : ∀ x ∈ s₁, x.1 ≠ pass)
    (hstable : ∀ x ∈ s₂, x.1 = pass → x.2.Stable)
    (hdone : ((c.run handle ((pass, e) :: s₁ ++ (pass, e') :: s₂)).threads pass).isDone = true) :
    let c' := c.run handle ((pass, e) :: s₁ ++ (pass, e') :: s₂)
    let events := c.state.newEvents c'.state
    let cutoffTime := cutoff retention e'.now
    ∀ jobID,
      Pruned cutoffTime (c.state.fsm.historyOf jobID) (attemptsRecorded jobID events)
          (c'.state.fsm.historyOf jobID) ↔
        ∀ l x, l ++ [x] <+: events → x.2.Prunes jobID →
          ∀ attempt ∈ attemptsRecorded jobID l, attempt.startTime < cutoffTime := by
  intro c' events cutoffTime jobID
  have hstep : ∀ tid (β : Type) (a : Act β) (e : Env) (s : Node),
      Issues (fun cmd => cmd.KeepsHistory ∨ PrunesFrom c.state.fsm cutoffTime cmd) β a →
      c.state.Since (HistoryFrom c.state.fsm cutoffTime) s →
      c.state.Since (HistoryFrom c.state.fsm cutoffTime) (handle tid β a e s).1 :=
    fun _ _ _ e _ ha hs => HistoryFrom.step hs ha e
  obtain ⟨c₁, hrun, hI, hown, hrest⟩ := at_work hpass e e' hs₁ hstep
    (fun t ht => (hothers t ht).mono fun _ ha => ha.mono fun _ => Or.inl)
    (Node.Since.start (.refl _))
  have hc' : c' = c₁.run handle s₂ := hrun s₂
  have hend : c.state.Since (HistoryFrom c.state.fsm cutoffTime) c'.state := by
    rw [hc']
    refine Config.run_all hstep (fun tid => ?_) hI s₂
    by_cases ht : tid = pass
    · subst ht
      rw [hown]
      exact (all_pruneWork cutoffTime c.state e).mono fun _ ha => ha.mono fun _ => Or.inr
    · exact hrest tid ht
  refine (hend.newEvents.history jobID).pruned_copy_iff fun hold => ?_
  cases hstate : c.state.fsm.executionStates.lookup jobID with
  | none => simp [FSM.historyOf, hstate, old] at hold
  | some state =>
    rw [hrun s₂] at hdone
    have hwork := pruned_when_done hown (hI.imp fun _ h => ⟨h.1, trivial⟩) hstable hdone
      ⟨jobID, state⟩ (Node.mem_copy.mpr hstate)
    rw [← hc'] at hwork
    refine hwork ?_
    rwa [FSM.historyOf, hstate] at hold

/-- An attempt at job `a` that started then. -/
def attemptAt (startTime : ℤ) : ExecutionAttempt :=
  { attemptNum := 1, startTime := startTime, nodeID := "n" }

/-- A job with one attempt, of second 0.  Thread 0 prunes what is older than five seconds; thread 1
records an attempt of second 8. -/
def recordBeside : Config Act Node where
  state :=
    { fsm :=
        { newFSM with
          executionStates := Finmap.singleton "a"
            { jobID := "a", status := .inProgress, createdAt := 0, attempts := [attemptAt 0] } }
      queue := newPersistentSlotQueue 0 }
  threads
    | 0 => prunePass 5000000000
    | 1 => recordAttempt "a" (some (attemptAt 8)) >>= fun _ => pure ()
    | _ => pure ()

/-- Second 10: the pass reads and looks at the clock; then thread 1 takes so many steps, then the
pass goes on to its end, and after it thread 1. -/
def pruneAtTen (steps : ℕ) : List (ℕ × Env) :=
  (0, Env.calm 10) :: [] ++ (0, Env.calm 10) ::
    (List.replicate steps (1, Env.calm 10) ++
      (List.replicate 3 (0, Env.calm 10) ++ List.replicate 3 (1, Env.calm 10)))

lemma recordBeside_keepsHistory :
    ∀ t, t ≠ 0 → All (Issues KeepsHistory) (recordBeside.threads t) := by
  intro t ht
  match t with
  | 0 => exact absurd rfl ht
  | 1 =>
    refine All.bind ?_ fun _ => trivial
    exact Store.issues_of_quiet (Store.quiet_of_detached (all_recordAttempt fun sc _ =>
      ⟨by simp [FSM.attemptRecord], by simp [FSM.attemptRecord], by simp [FSM.attemptRecord]⟩))
      fun _ h => h
  | _ + 2 => trivial

/-- An attempt that is recorded after the pruning stays. -/
theorem pruned_before_record :
    Pruned 5 [attemptAt 0] [attemptAt 8]
        ((recordBeside.run handle (pruneAtTen 0)).state.fsm.historyOf "a") ∧
      (recordBeside.run handle (pruneAtTen 0)).state.fsm.historyOf "a" = [attemptAt 8] := by
  have hiff := pruned_iff 5000000000 0 recordBeside rfl recordBeside_keepsHistory (Env.calm 10)
    (Env.calm 10) [] (pruneAtTen 0).tail.tail (by simp) (by decide +kernel) (by decide +kernel) "a"
  refine ⟨hiff.mpr fun l x hl hx attempt ha => ?_, by decide +kernel⟩
  -- the pruning is the first event
  have hfirst : ∀ y ∈ (recordBeside.state.newEvents
      (recordBeside.run handle (pruneAtTen 0)).state).tail, ¬ y.2.Prunes "a" := by
    decide +kernel
  cases l with
  | nil => simp [attemptsRecorded] at ha
  | cons y l =>
    obtain ⟨r, hr⟩ := hl
    have hx' : x ∈ (y :: l ++ [x] ++ r).tail := by simp
    exact absurd hx (hfirst x (hr ▸ hx'))

/-- **A recent attempt is lost**: it is recorded after the pass has read, and the pruning replaces
the list it is in. -/
theorem recorded_attempt_lost :
    let c' := recordBeside.run handle (pruneAtTen 3)
    (c'.threads 0).isDone = true ∧
      attemptsRecorded "a" (recordBeside.state.newEvents c'.state) = [attemptAt 8] ∧
      c'.state.fsm.historyOf "a" = [] ∧
      ¬ Pruned 5 [attemptAt 0] [attemptAt 8] (c'.state.fsm.historyOf "a") := by
  decide +kernel

end StatusTracker

end ScheduledDb
