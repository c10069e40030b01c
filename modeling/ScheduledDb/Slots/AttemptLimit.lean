import ScheduledDb.Slots.Grants

/-!
# The attempt limit

`Execute` reads the attempt count, compares it with the limit and only then has it incremented; and
an attempt is recorded under the number that was read.  Here the calls that work on execution states
come one after the other, with anything else beside them that leaves the job's execution state
alone.  Then the count is a bound for the webhook calls and for the numbers on record, at every
moment, whatever fails (`attempt_limit`).

The calls run as thread `0`, which tends the view `Node.jobView` of the job.  A webhook call is
paid for by an increment of the count: `Within` compares the two, and between the increment and the
call there is one to spare (`Entered`).
-/

namespace ScheduledDb

open Program Config StatusTracker FSM

/-! ## The job as its calls see it -/

/-- How often the webhook of the job has been started. -/
def Node.webhooks (n : Node) (jobID : String) : ℕ := n.trace.countP fun x => x.2.isWebhook jobID

/-- A job's execution state, and how often its webhook was started since a certain moment. -/
structure JobView where
  state : Option JobExecutionState
  started : ℤ

/-- The view of a job, whose webhook had been started `before` times at that moment. -/
def Node.jobView (jobID : String) (before : ℕ) (n : Node) : JobView where
  state := n.fsm.executionStates.lookup jobID
  started := n.webhooks jobID - before

/-- The job is completed or cancelled. -/
def JobView.IsOver (v : JobView) : Prop := ∃ state ∈ v.state, state.status.isOver = true

/-- What the calls may not do: create the job anew or delete it, or start the webhook of a job that
is completed or cancelled. -/
def Careful (jobID : String) : ∀ β : Type, Act β → JobView → Prop
  | _, .raftApply cmd, _ => ¬ cmd.Resets jobID
  | _, .executeWebhook job, v => job.id = jobID → ¬ v.IsOver
  | _, _, _ => True

/-- An action that has nothing to do with the execution state of the job. -/
def Apart (jobID : String) : ∀ β : Type, Act β → Prop
  | _, .raftApply cmd => cmd.subject ≠ some jobID
  | _, .executeWebhook job => job.id ≠ jobID
  | _, _ => True

/-- An execution state after `started` webhook calls under a limit. -/
structure JobExecutionState.Within (maxAttempts started : ℤ) (state : JobExecutionState) :
    Prop where
  started_le : started ≤ state.attemptCount
  count_le : state.attemptCount ≤ max maxAttempts 0
  increasing : (state.attempts.map ExecutionAttempt.attemptNum).Pairwise (· < ·)
  counted : ∀ attempt ∈ state.attempts, attempt.attemptNum ≤ state.attemptCount

/-- The attempt `attemptNum` is under way and not on record yet. -/
structure JobExecutionState.Entered (maxAttempts started attemptNum : ℤ)
    (state : JobExecutionState) : Prop extends state.Within maxAttempts started where
  count : state.attemptCount = attemptNum
  fresh : ∀ attempt ∈ state.attempts, attempt.attemptNum < attemptNum

/-- The job has an execution state, and it is within the limit. -/
def JobView.Limited (maxAttempts : ℤ) (v : JobView) : Prop :=
  ∃ state, v.state = some state ∧ state.Within maxAttempts v.started

namespace JobExecutionState

variable {maxAttempts started attemptNum : ℤ} {state : JobExecutionState}

lemma Within.new (jobID : String) (createdAt : ℤ) :
    (newExecutionState jobID createdAt).Within maxAttempts 0 where
  started_le := le_refl 0
  count_le := le_max_right maxAttempts 0
  increasing := by simp [newExecutionState]
  counted := by simp [newExecutionState]

lemma Within.of_le {started' : ℤ} (h : state.Within maxAttempts started)
    (hle : started' ≤ started) : state.Within maxAttempts started' :=
  { h with started_le := hle.trans h.started_le }

/-- A status update that starts no attempt. -/
lemma Within.update (h : state.Within maxAttempts started) {sc : StatusCommand}
    (hstatus : sc.status ≠ .inProgress) : (state.update sc).Within maxAttempts started := by
  obtain ⟨hstarted, hcount, hinc, hle⟩ := h
  constructor
  all_goals simp only [update_attemptCount state hstatus, update_attempts]
  all_goals assumption

/-- Forgetting attempts. -/
lemma Within.prune (h : state.Within maxAttempts started) {kept : List ExecutionAttempt}
    (hkept : kept.Sublist state.attempts) :
    ({ state with attempts := kept } : JobExecutionState).Within maxAttempts started :=
  { h with
    increasing := h.increasing.sublist (hkept.map _)
    counted := fun attempt ha => h.counted attempt (hkept.subset ha) }

/-- Recording the attempt that is under way. -/
lemma Entered.record (h : state.Entered maxAttempts started attemptNum)
    {attempt : ExecutionAttempt} (hnum : attempt.attemptNum = attemptNum) :
    ({ state with attempts := state.attempts ++ [attempt] } : JobExecutionState).Within maxAttempts
      started := by
  refine { h.toWithin with increasing := ?_, counted := fun a ha => ?_ }
  · rw [List.map_append, List.pairwise_append]
    refine ⟨h.increasing, by simp, fun num hmem num' hmem' => ?_⟩
    obtain ⟨a, ha, rfl⟩ := List.mem_map.mp hmem
    simp only [List.map_cons, List.map_nil, List.mem_singleton] at hmem'
    rw [hmem', hnum]
    exact h.fresh a ha
  · rcases List.mem_append.mp ha with hold | hnew
    · exact h.counted a hold
    · rw [List.mem_singleton.mp hnew, hnum, h.count]

/-- Marking a job as in progress pays for one more call. -/
lemma Within.enter (h : state.Within maxAttempts started) {sc : StatusCommand}
    (hstatus : sc.status = .inProgress) (hlimit : state.attemptCount + 1 ≤ maxAttempts) :
    (state.update sc).Entered maxAttempts (started + 1) (state.attemptCount + 1) := by
  obtain ⟨hstarted, hcount, hinc, hle⟩ := h
  have hnew : (state.update sc).attemptCount = state.attemptCount + 1 := by
    simp [JobExecutionState.update, hstatus]
  refine ⟨⟨?_, ?_, ?_, ?_⟩, hnew, ?_⟩
  · omega
  · rw [hnew]
    exact hlimit.trans (le_max_left maxAttempts 0)
  · rwa [update_attempts]
  · rw [update_attempts, hnew]
    exact fun a ha => (hle a ha).trans (by omega)
  · rw [update_attempts]
    exact fun a ha => Int.lt_add_one_of_le (hle a ha)

end JobExecutionState

/-! ## What single actions do to the view -/

section View

variable {jobID : String} {before : ℕ} {maxAttempts : ℤ} {v : JobView} {n : Node} {β : Type}
  {a : Act β}

@[simp] lemma webhooks_record (n : Node) (thread : ℕ) (ev : Event) :
    (n.record thread ev).webhooks jobID
      = n.webhooks jobID + if ev.isWebhook jobID = true then 1 else 0 := by
  simp [Node.webhooks, Node.record, List.countP_cons]

/-- A webhook call shows in the view. -/
lemma jobView_record_webhook (n : Node) (thread : ℕ) {job : Job} (hid : job.id = jobID) :
    (n.record thread (.webhook job)).jobView jobID before
      = { n.jobView jobID before with started := (n.jobView jobID before).started + 1 } := by
  have hev : Event.isWebhook jobID (.webhook job) = true := by simp [Event.isWebhook, hid]
  simp only [Node.jobView, webhooks_record, hev, if_true, Node.record_fsm, JobView.mk.injEq,
    true_and]
  omega

/-- Other events do not. -/
lemma jobView_record_of_ne (n : Node) (thread : ℕ) {ev : Event} (hev : ev.isWebhook jobID = false) :
    (n.record thread ev).jobView jobID before = n.jobView jobID before := by
  simp [Node.jobView, hev]

lemma jobView_applyCommand (n : Node) (thread : ℕ) (faults : ColdFaults) (cmd : Command) :
    (n.applyCommand thread faults cmd).jobView jobID before
      = { n.jobView jobID before with
          state := (n.fsm.apply faults cmd).1.executionStates.lookup jobID } := by
  simp [Node.jobView, Node.webhooks, Node.applyCommand, Event.isWebhook]

lemma Apart.of_quiet (ha : Quiet (fun cmd => cmd.subject ≠ some jobID) β a) : Apart jobID β a := by
  cases a with
  | raftApply cmd => exact ha
  | executeWebhook job => exact ha.elim
  | _ => trivial

/-- Who does not deal with the job does not change its view. -/
lemma jobView_of_apart (ha : Apart jobID β a) (thread : ℕ) (e : Env) (n : Node) :
    (handle thread β a e n).1.jobView jobID before = n.jobView jobID before := by
  cases a with
  | raftApply cmd =>
    simp only [handle]
    split_ifs
    · rw [jobView_applyCommand, lookup_apply_of_subject_ne ha]
      rfl
    · rfl
  | executeWebhook job =>
    have hne : job.id ≠ jobID := ha
    exact jobView_record_of_ne n thread (by simp [Event.isWebhook, hne])
  | statusChanged oldStatus newStatus => exact jobView_record_of_ne n thread rfl
  | _ => rfl

lemma careful_of_apart (ha : Apart jobID β a) : Careful jobID β a v := by
  cases a with
  | raftApply cmd => exact fun h => ha h.2
  | executeWebhook job => exact fun h => absurd h ha
  | _ => trivial

/-- A job that is over stays so under careful actions, and its webhook is not started. -/
lemma isOver_of_careful {e : Env} {started : ℤ} {thread : ℕ}
    (ha : Careful jobID β a (n.jobView jobID before))
    (h : (n.jobView jobID before).IsOver ∧ (n.jobView jobID before).started = started) :
    ((handle thread β a e n).1.jobView jobID before).IsOver ∧
      ((handle thread β a e n).1.jobView jobID before).started = started := by
  cases a with
  | raftApply cmd =>
    simp only [handle]
    split_ifs
    · obtain ⟨state, hstate, hover⟩ := h.1
      have hstatus : (n.fsm.statusOf jobID) = state.status := statusOf_of_lookup hstate
      have hsame := statusOf_apply_of_isOver (hstatus ▸ hover) ha e.faults
      rw [hstatus] at hsame
      rw [jobView_applyCommand]
      refine ⟨?_, h.2⟩
      cases hnew : (n.fsm.apply e.faults cmd).1.executionStates.lookup jobID with
      | none =>
        rw [statusOf_of_none hnew] at hsame
        rw [← hsame] at hover
        cases hover
      | some state' =>
        refine ⟨state', rfl, ?_⟩
        rwa [← statusOf_of_lookup hnew, hsame]
    · exact h
  | executeWebhook job =>
    have hne : job.id ≠ jobID := fun hid => ha hid h.1
    rw [jobView_of_apart (a := .executeWebhook job) hne]
    exact h
  | statusChanged oldStatus newStatus =>
    rw [jobView_of_apart (a := .statusChanged oldStatus newStatus) trivial]
    exact h
  | _ => exact h

end View

/-! ## The thread of the calls -/

/-- Actions of thread `0`, which tends the view of the job and always keeps the limit. -/
def tends (jobID : String) (before : ℕ) (maxAttempts : ℤ) : Transformer Act JobView :=
  watching (JobView.Limited maxAttempts)
    (seen (Node.jobView jobID before) (Careful jobID) (fun _ _ _ _ => True) (handle 0))

section Tends

variable {jobID : String} {before : ℕ} {maxAttempts : ℤ} {v : JobView}
  {Q : Option String → JobView → Prop} {sc : StatusCommand} {cmd : Command}
  {state : JobExecutionState} {command : ℤ → StatusCommand} {assumed : JobStatus} {id : String}
  {first : Program Act (Option String)}

lemma tends_mono : (tends jobID before maxAttempts).Mono := watching_mono seen_mono

lemma tends_apart {β : Type} {a : Act β} {Q : β → JobView → Prop} (ha : Apart jobID β a)
    (hv : v.Limited maxAttempts) (hQ : ∀ b, Q b v) : tends jobID before maxAttempts β a Q v := by
  refine ⟨hv, careful_of_apart ha, fun n e hn _ => ?_⟩
  rw [jobView_of_apart ha, hn]
  exact hQ _

lemma wpWith_apart {α : Type} {p : Program Act α} {Q : α → JobView → Prop}
    (hp : All (Apart jobID) p) (hv : v.Limited maxAttempts) (hQ : ∀ a, Q a v) :
    wpWith (tends jobID before maxAttempts) p Q v :=
  hp.wpWith (fun _ _ ha hQ => tends_apart ha hv hQ) hQ

lemma tends_getExecutionState {Q : Option JobExecutionState → JobView → Prop}
    (hv : v.Limited maxAttempts) (hQ : Q v.state v) :
    tends jobID before maxAttempts _ (.getExecutionState jobID) Q v := by
  refine ⟨hv, trivial, ?_⟩
  rintro n e rfl _
  exact hQ

lemma tends_executeWebhook {job : Job} {Q : WebhookOutcome → JobView → Prop}
    (hid : job.id = jobID) (hv : v.Limited maxAttempts) (hover : ¬ v.IsOver)
    (hQ : ∀ r, Q r { v with started := v.started + 1 }) :
    tends jobID before maxAttempts _ (.executeWebhook job) Q v := by
  refine ⟨hv, fun _ => hover, ?_⟩
  rintro n e rfl _
  simp only [handle, jobView_record_webhook n 0 hid]
  exact hQ _

lemma wpWith_applyStatusCommand (hv : v.Limited maxAttempts) (hcmd : ¬ cmd.Resets jobID)
    (hskip : ∀ err, Q (some err) v)
    (happly : ∀ r faults (f : FSM), f.executionStates.lookup jobID = v.state →
      Q r { v with state := (f.apply faults cmd).1.executionStates.lookup jobID }) :
    wpWith (tends jobID before maxAttempts) (applyStatusCommand cmd) Q v := by
  simp only [applyStatusCommand, Store.apply, Store.propose, Store.raftApply,
    wpWith_bind, perform_bind, wpWith_step, wpWith_ite]
  refine tends_apart trivial hv fun leader => ⟨fun _ => ⟨hv, hcmd, ?_⟩, fun _ => hskip _⟩
  rintro n e rfl _
  rcases handle_raftApply 0 cmd e n with ⟨message, hsame⟩ | ⟨r, happlied⟩
  · rw [hsame]
    exact hskip _
  · rw [happlied, jobView_applyCommand]
    cases r with
    | none | some message => exact happly _ e.faults n.fsm rfl

/-- A status update of the job. -/
lemma wpWith_statusUpdate (hstate : v.state = some state) (hv : v.Limited maxAttempts)
    (hid : sc.jobID = jobID) (hskip : ∀ err, Q (some err) v) (happly : ∀ r, Q r { v with
      state := some (if validateStateTransition state.status sc.status = none
        then state.update sc else state) }) :
    wpWith (tends jobID before maxAttempts)
      (applyStatusCommand (statusUpdate sc)) Q v := by
  refine wpWith_applyStatusCommand hv (by simp [Command.Resets, statusUpdate]) hskip
    fun r faults f hf => ?_
  have hlookup : f.executionStates.lookup sc.jobID = some state := by rw [hid, hf, hstate]
  rw [lookup_statusUpdate, if_pos hid.symm, statusOf_of_lookup hlookup, stateFor,
    hlookup]
  exact happly r

/-- A command that replaces the attempts of the job. -/
lemma wpWith_attempts {attempts : JobExecutionState → Option (List ExecutionAttempt)}
    {kept : List ExecutionAttempt} (hstate : v.state = some state) (hv : v.Limited maxAttempts)
    (hcmd : ¬ cmd.Resets jobID) (heffect : ∀ faults (f : FSM),
      (f.apply faults cmd).1 = (f.attemptsEffect sc attempts).act faults f) (hid : sc.jobID = jobID)
    (hkept : attempts state = some kept) (hskip : ∀ err, Q (some err) v)
    (happly : ∀ r, Q r { v with state := some { state with attempts := kept } }) :
    wpWith (tends jobID before maxAttempts) (applyStatusCommand cmd) Q v := by
  refine wpWith_applyStatusCommand hv hcmd hskip fun r faults f hf => ?_
  have hlookup : f.executionStates.lookup sc.jobID = some state := by rw [hid, hf, hstate]
  rw [heffect, attemptsEffect, hlookup]
  simp only [hkept, Effect.act, hid, Finmap.lookup_insert]
  exact happly r

/-- Every status update that starts no attempt keeps the limit. -/
lemma wpWith_statusUpdate_limited (hv : v.Limited maxAttempts) (hstatus : sc.status ≠ .inProgress) :
    wpWith (tends jobID before maxAttempts)
      (applyStatusCommand (statusUpdate sc))
      (fun _ v' => v'.Limited maxAttempts) v := by
  by_cases hid : sc.jobID = jobID
  · obtain ⟨state, hstate, hwithin⟩ := hv
    refine wpWith_statusUpdate hstate ⟨state, hstate, hwithin⟩ hid
      (fun _ => ⟨state, hstate, hwithin⟩) fun _ => ⟨_, rfl, ?_⟩
    split_ifs
    · exact hwithin.update hstatus
    · exact hwithin
  · refine wpWith_apart ?_ hv fun _ => hv
    refine (all_applyStatusCommand ?_).mono fun _ ha => Apart.of_quiet (Store.Detached.quiet ha)
    simp [Command.subject, statusUpdate, hid]

lemma wpWith_notifyCallback {st : StatusTracker} {oldStatus newStatus : JobStatus}
    {Q : Unit → JobView → Prop} (hv : v.Limited maxAttempts) (hQ : Q () v) :
    wpWith (tends jobID before maxAttempts) (st.notifyCallback oldStatus newStatus) Q v :=
  wpWith_apart ((all_notifyCallback st _ _).mono fun _ ha =>
    Apart.of_quiet (Store.Detached.quiet ha)) hv
    fun _ => hQ

/-- A `Mark…` call, by what its parts do. -/
lemma wpWith_mark (st : StatusTracker) (hv : v.Limited maxAttempts)
    (hrefused : ∀ err, Q (some err) v) (hfirst : wpWith (tends jobID before maxAttempts) first
      (fun r v' => v'.Limited maxAttempts ∧ (∀ err, r = some err → Q r v') ∧
        (r = none → ∀ now, wpWith (tends jobID before maxAttempts)
          (applyStatusCommand (statusUpdate (command now)))
          (fun r' v'' => v''.Limited maxAttempts ∧ Q r' v'') v')) v) :
    wpWith (tends jobID before maxAttempts) (st.mark id assumed first command) Q v := by
  simp only [mark, perform_bind, wpWith_step, wpWith_ite, wpWith_bind]
  refine tends_apart trivial hv fun _ => ⟨fun _ => ?_, fun _ => hrefused _⟩
  refine tends_apart trivial hv fun prev => wpWith_mono tends_mono hfirst ?_
  rintro r v' ⟨hv', hfailed, hupdate⟩
  cases r with
  | some err => exact hfailed err rfl
  | none =>
    refine tends_apart trivial hv' fun now => wpWith_bind.mpr
      (wpWith_mono tends_mono (hupdate rfl now) ?_)
    rintro r' v'' ⟨hv'', hQ⟩
    cases r' with
    | some err => exact hQ
    | none => exact wpWith_bind.mpr (wpWith_notifyCallback hv'' hQ)

/-- Marking a job that starts no attempt. -/
lemma wpWith_mark_limited (st : StatusTracker) (hv : v.Limited maxAttempts)
    (hstatus : ∀ now, (command now).status ≠ .inProgress)
    (hfirst : wpWith (tends jobID before maxAttempts) first (fun _ v' => v'.Limited maxAttempts) v) :
    wpWith (tends jobID before maxAttempts) (st.mark id assumed first command)
      (fun _ v' => v'.Limited maxAttempts) v := by
  refine wpWith_mark st hv (fun _ => hv) (wpWith_mono tends_mono hfirst fun r v' hv' => ?_)
  refine ⟨hv', fun _ _ => hv', fun _ now => ?_⟩
  exact wpWith_mono tends_mono (wpWith_statusUpdate_limited hv' (hstatus now))
    fun _ _ h => ⟨h, h⟩

end Tends

/-! ## The calls -/

namespace StatusTracker

variable {jobID : String} {before : ℕ} {maxAttempts : ℤ} {v : JobView}

lemma limited_checkTimeouts (st : StatusTracker) (timeout : Duration) (hv : v.Limited maxAttempts) :
    wpWith (tends jobID before maxAttempts) (st.checkTimeouts timeout)
      (fun _ v' => v'.Limited maxAttempts) v := by
  simp only [checkTimeouts, perform_bind, wpWith_step, wpWith_ite, wpWith_bind]
  refine tends_apart trivial hv fun _ => ⟨fun _ => ?_, fun _ => hv⟩
  refine tends_apart trivial hv fun allStates => tends_apart trivial hv fun now => ?_
  refine wpWith_foldEach tends_mono (I := fun _ => JobView.Limited maxAttempts) allStates
    (fun entry _ timedOut v' hv' => ?_) hv
  simp only [checkTimeout, wpWith_ite, wpWith_bind]
  refine ⟨fun _ => ?_, fun _ => hv'⟩
  refine wpWith_mono tends_mono (wpWith_statusUpdate_limited hv' (by simp)) fun r v'' hv'' => ?_
  cases r with
  | some err => exact hv''
  | none => exact wpWith_bind.mpr (wpWith_notifyCallback hv'' hv'')

/-- Recording the attempt that is under way. -/
lemma limited_recordAttempt {attempt : ExecutionAttempt} {state : JobExecutionState}
    {attemptNum : ℤ} (hstate : v.state = some state)
    (hentered : state.Entered maxAttempts v.started attemptNum)
    (hnum : attempt.attemptNum = attemptNum) :
    wpWith (tends jobID before maxAttempts) (recordAttempt jobID (some attempt))
      (fun _ v' => v'.Limited maxAttempts) v := by
  have hv : v.Limited maxAttempts := ⟨state, hstate, hentered.toWithin⟩
  refine tends_apart trivial hv fun now => wpWith_attempts hstate hv
    (by simp [Command.Resets, attemptRecord])
    (fun faults f => effect_attemptRecord faults f _) rfl rfl (fun _ => hv) ?_
  exact fun _ => ⟨_, rfl, hentered.record hnum⟩

/-- One round of the loop, at a job whose attempts are those of `entry`, some of them perhaps pruned
already: what is kept was on record before. -/
lemma limited_pruneAttempts {state : JobExecutionState} (cutoffTime : ℤ)
    {entry : Σ _ : String, JobExecutionState} (hentry : entry.1 = jobID → entry.2 = state)
    (hwithin : state.Within maxAttempts v.started) {kept : List ExecutionAttempt}
    (hstate : v.state = some { state with attempts := kept })
    (hkept : kept.Sublist state.attempts) :
    wpWith (tends jobID before maxAttempts) (pruneAttempts cutoffTime entry)
      (fun _ v' => v'.started = v.started ∧ ∃ kept', kept'.Sublist state.attempts ∧
        v'.state = some { state with attempts := kept' }) v := by
  have hv : v.Limited maxAttempts := ⟨_, hstate, hwithin.prune hkept⟩
  have hsame : v.started = v.started ∧ ∃ kept', kept'.Sublist state.attempts ∧
      v.state = some { state with attempts := kept' } := ⟨rfl, kept, hkept, hstate⟩
  simp only [pruneAttempts, perform_bind, wpWith_ite, wpWith_step, wpWith_bind]
  refine ⟨fun _ => tends_apart trivial hv fun now => ?_, fun _ => hsame⟩
  by_cases hid : entry.1 = jobID
  · refine wpWith_attempts hstate hv (by simp [Command.Resets, attemptPrune])
      (fun faults f => effect_attemptPrune faults f _ _) hid rfl (fun _ => hsame)
      fun _ => ⟨rfl, _, ?_, rfl⟩
    rw [hentry hid]
    exact List.filter_sublist
  · refine wpWith_apart ?_ hv fun _ => hsame
    refine (all_applyStatusCommand ?_).mono fun _ ha => Apart.of_quiet (Store.Detached.quiet ha)
    simp [Command.subject, attemptPrune, hid]

/-- By induction on the jobs that are left: the attempts are some of those read at the start. -/
lemma limited_pruneOldAttempts (retention : Duration) (hv : v.Limited maxAttempts) :
    wpWith (tends jobID before maxAttempts) (pruneOldAttempts retention)
      (fun _ v' => v'.Limited maxAttempts) v := by
  simp only [pruneOldAttempts, perform_bind, wpWith_step, wpWith_ite, wpWith_bind]
  refine tends_apart trivial hv fun _ => ⟨fun _ => ⟨hv, trivial, ?_⟩, fun _ => hv⟩
  rintro n e rfl _
  obtain ⟨state, hstate, hwithin⟩ := hv
  have hentries : ∀ entry ∈ e.order _ n.fsm.executionStates.sortedEntries,
      entry.1 = jobID → entry.2 = state := by
    rintro ⟨id, found⟩ hmem rfl
    rw [(e.order_perm _ _).mem_iff, Finmap.mem_sortedEntries] at hmem
    exact Option.some.inj (hmem.symm.trans hstate)
  refine tends_apart trivial ⟨state, hstate, hwithin⟩ fun now => ?_
  refine wpWith_mono tends_mono (wpWith_forEach tends_mono
    (I := fun v' => v'.started = (n.jobView jobID before).started ∧
      ∃ kept, kept.Sublist state.attempts ∧ v'.state = some { state with attempts := kept }) _
    ?_ ⟨rfl, state.attempts, .refl _, hstate⟩) ?_
  · rintro entry hmem v' ⟨hstarted, kept, hkept, hstate'⟩
    rw [← hstarted] at hwithin ⊢
    exact limited_pruneAttempts _ (hentries entry hmem) hwithin hstate' hkept
  · rintro _ v' ⟨hstarted, kept, hkept, hstate'⟩
    rw [← hstarted] at hwithin
    exact ⟨_, hstate', hwithin.prune hkept⟩

end StatusTracker

namespace ExecutionManager

variable {jobID : String} {before : ℕ} {v : JobView} {job : Job} {state : JobExecutionState}
  {attemptNum : ℤ} {maxAttempts : ℤ} {attempt : ExecutionAttempt}

/-- The last part of an attempt whose webhook has been called. -/
lemma limited_markEnded (em : ExecutionManager) {assumed : JobStatus} {command : ℤ → StatusCommand}
    (hstate : v.state = some state) (hentered : state.Entered maxAttempts v.started attemptNum)
    (hnum : attempt.attemptNum = attemptNum) (hstatus : ∀ now, (command now).status ≠ .inProgress) :
    wpWith (tends jobID before maxAttempts)
      (em.statusTracker.mark jobID assumed (recordFirst jobID (some attempt)) command)
      (fun _ v' => v'.Limited maxAttempts) v := by
  refine wpWith_mark_limited _ ⟨state, hstate, hentered.toWithin⟩ hstatus (wpWith_bind.mpr ?_)
  refine wpWith_mono tends_mono (limited_recordAttempt hstate hentered hnum)
    fun r v' hv' => ?_
  cases r with
  | none => exact hv'
  | some err => exact hv'

lemma limited_finishFailed (em : ExecutionManager) (hid : job.id = jobID)
    (hstate : v.state = some state) (hentered : state.Entered maxAttempts v.started attemptNum)
    (hnum : attempt.attemptNum = attemptNum) (httpStatus : ℤ) (err : WebhookError) :
    wpWith (tends jobID before maxAttempts) (em.finishFailed job attempt httpStatus err)
      (fun _ v' => v'.Limited maxAttempts) v := by
  subst hid
  have hv : v.Limited maxAttempts := ⟨state, hstate, hentered.toWithin⟩
  have hmark : wpWith (tends job.id before maxAttempts)
      (finishFailed.recordFailure em job attempt httpStatus err)
      (fun _ v' => v'.Limited maxAttempts) v :=
    wpWith_bind.mpr (em.limited_markEnded hstate hentered hnum fun _ => by simp)
  refine tends_getExecutionState hv ?_
  rw [hstate]
  exact wpWith_ite.mpr ⟨fun _ => hv, fun _ => hmark⟩

lemma limited_finishSucceeded (em : ExecutionManager) (hid : job.id = jobID)
    (hstate : v.state = some state) (hentered : state.Entered maxAttempts v.started attemptNum)
    (hnum : attempt.attemptNum = attemptNum) (httpStatus : ℤ) :
    wpWith (tends jobID before maxAttempts) (em.finishSucceeded job attempt httpStatus)
      (fun _ v' => v'.Limited maxAttempts) v := by
  subst hid
  have hv : v.Limited maxAttempts := ⟨state, hstate, hentered.toWithin⟩
  refine tends_getExecutionState hv ?_
  rw [hstate]
  refine wpWith_ite.mpr ⟨fun _ => wpWith_bind.mpr ?_, fun _ => ?_⟩
  · exact limited_recordAttempt hstate hentered hnum
  · exact em.limited_markEnded hstate hentered hnum fun _ => by simp

/-- From a granted attempt on. -/
lemma limited_callWebhook (em : ExecutionManager) (hid : job.id = jobID)
    (hstate : v.state = some state) (hstatus : state.status = .inProgress)
    (hentered : state.Entered maxAttempts (v.started + 1) attemptNum) :
    wpWith (tends jobID before maxAttempts) (em.callWebhook job attemptNum)
      (fun _ v' => v'.Limited maxAttempts) v := by
  have hv : v.Limited maxAttempts := ⟨state, hstate, hentered.toWithin.of_le (by omega)⟩
  have hover : ¬ v.IsOver := by
    rintro ⟨found, hfound, hover⟩
    obtain rfl : state = found := Option.some.inj (hstate.symm.trans hfound)
    rw [hstatus] at hover
    cases hover
  simp only [callWebhook, perform_bind, wpWith_step]
  refine tends_apart trivial hv fun startTime => tends_executeWebhook hid hv hover fun outcome => ?_
  refine tends_apart trivial ⟨state, hstate, hentered.toWithin⟩ fun endTime => ?_
  cases (webhookResult job outcome).2.2 with
  | some err =>
    exact em.limited_finishFailed (v := { v with started := v.started + 1 }) hid hstate hentered
      rfl _ err
  | none =>
    exact em.limited_finishSucceeded (v := { v with started := v.started + 1 }) hid hstate
      hentered rfl _

/-- The attempt is granted if the job may be executed. -/
lemma limited_startAttempt (em : ExecutionManager) (hid : job.id = jobID)
    (hstate : v.state = some state) (hwithin : state.Within em.maxAttempts v.started)
    (hexec : executable state.status = .ok true) :
    wpWith (tends jobID before em.maxAttempts) (em.startAttempt job (state.attemptCount + 1))
      (fun _ v' => v'.Limited em.maxAttempts) v := by
  subst hid
  have hv : v.Limited em.maxAttempts := ⟨state, hstate, hwithin⟩
  have hvalid : validateStateTransition state.status .inProgress = none := by
    cases hstatus : state.status with
    | pending => rfl
    | timeout => rfl
    | failed => rfl
    | _ => simp [hstatus, executable] at hexec
  refine wpWith_ite.mpr ⟨fun _ => hv, fun hlimit => wpWith_bind.mpr ?_⟩
  have hlimit' : state.attemptCount + 1 ≤ em.maxAttempts := not_lt.mp hlimit
  have hlimited : ∀ sc : StatusCommand, sc.status = .inProgress →
      JobView.Limited em.maxAttempts { v with state := some (state.update sc) } := fun sc hstatus =>
    ⟨_, rfl, (hwithin.enter hstatus hlimit').toWithin.of_le (by simp)⟩
  refine wpWith_mark _ hv (fun err => hv) ⟨hv, fun err herr => (by cases herr), fun _ now => ?_⟩
  refine wpWith_statusUpdate hstate hv rfl (fun err => ⟨hv, hv⟩) fun r => ?_
  simp only [if_pos hvalid]
  refine ⟨hlimited _ rfl, ?_⟩
  cases r with
  | some err => exact hlimited _ rfl
  | none =>
    refine em.limited_callWebhook rfl rfl ?_ (hwithin.enter rfl hlimit')
    rw [update_status]

/-- The execution of another job. -/
lemma apart_execute (em : ExecutionManager) (hid : job.id ≠ jobID) :
    All (Apart jobID) (em.execute job) := by
  have hne : ∀ sc : StatusCommand, sc.jobID = job.id → sc.jobID ≠ jobID := by
    rintro sc hsc rfl
    exact hid hsc.symm
  have hwebhook : Apart jobID _ (.executeWebhook job) := hid
  refine em.all_execute (P := fun cmd => cmd.subject ≠ some jobID) (fun sc hsc => ?_)
    (fun _ ha => Apart.of_quiet (Store.Detached.quiet ha)) hwebhook fun sc hsc => ?_
  · simpa [Command.subject, attemptRecord] using hne sc hsc
  · simpa [Command.subject, statusUpdate] using hne sc hsc

/-- **One call of `Execute`.** -/
theorem limited_execute (em : ExecutionManager) (job : Job) (hv : v.Limited em.maxAttempts) :
    wpWith (tends jobID before em.maxAttempts) (em.execute job)
      (fun _ v' => v'.Limited em.maxAttempts) v := by
  by_cases hid : job.id = jobID
  · obtain ⟨state, hstate, hwithin⟩ := hv
    have hv : v.Limited em.maxAttempts := ⟨state, hstate, hwithin⟩
    subst hid
    simp only [execute, canExecute, perform_bind, step_bind, wpWith_step]
    refine tends_getExecutionState hv ?_
    rw [hstate]
    simp only [pure_eq, done_bind]
    cases hexec : executable state.status with
    | error err => exact hv
    | ok can =>
      cases can with
      | false => exact hv
      | true =>
        refine tends_getExecutionState hv ?_
        rw [hstate]
        exact em.limited_startAttempt rfl hstate hwithin hexec
  · exact wpWith_apart (em.apart_execute hid) hv fun _ => hv

end ExecutionManager

/-! ## Runs -/

/-- The calls that work on execution states. -/
inductive StatusCall where
  | execute (nodeID : String) (job : Job)
  | checkTimeouts (st : StatusTracker) (timeout : Duration)
  | markCancelled (st : StatusTracker) (jobID reason : String)
  | pruneOldAttempts (retention : Duration)

def StatusCall.program (maxAttempts : ℤ) : StatusCall → Program Act Unit
  | execute nodeID job =>
    ({ nodeID := nodeID, maxAttempts := maxAttempts } : ExecutionManager).execute job
      >>= fun _ => pure ()
  | checkTimeouts st timeout => st.checkTimeouts timeout >>= fun _ => pure ()
  | markCancelled st jobID reason => st.markCancelled jobID reason >>= fun _ => pure ()
  | pruneOldAttempts retention => StatusTracker.pruneOldAttempts retention >>= fun _ => pure ()

/-- The calls one after the other as thread `0`, and other threads beside them. -/
def withCalls (maxAttempts : ℤ) (calls : List StatusCall) (others : ℕ → Program Act Unit)
    (n : Node) : Config Act Node where
  state := n
  threads := fun t => if t = 0 then forEach calls (StatusCall.program maxAttempts) else others t

variable {jobID : String} {n : Node}

lemma StatusCall.limited_program {before : ℕ} {v : JobView} (maxAttempts : ℤ) (call : StatusCall)
    (hv : v.Limited maxAttempts) :
    wpWith (tends jobID before maxAttempts) (call.program maxAttempts)
      (fun _ => JobView.Limited maxAttempts) v := by
  cases call with
  | execute nodeID job =>
    exact wpWith_bind.mpr (ExecutionManager.limited_execute ⟨nodeID, maxAttempts⟩ job hv)
  | checkTimeouts st timeout => exact wpWith_bind.mpr (st.limited_checkTimeouts timeout hv)
  | markCancelled st id reason =>
    exact wpWith_bind.mpr (wpWith_mark_limited st hv (fun _ => by simp) hv)
  | pruneOldAttempts retention =>
    exact wpWith_bind.mpr (limited_pruneOldAttempts retention hv)

/-- Since `start` the webhook has been started at most `maxAttempts` times, and the attempts on
record have increasing numbers, none of them above the count. -/
structure Node.WithinLimit (start : Node) (maxAttempts : ℤ) (jobID : String) (n : Node) : Prop where
  webhooks : n.webhooks jobID ≤ start.webhooks jobID + maxAttempts.toNat
  attempts : ∃ state, n.fsm.getExecutionState jobID = some state ∧
    (state.attempts.map ExecutionAttempt.attemptNum).Pairwise (· < ·) ∧
    ∀ attempt ∈ state.attempts, attempt.attemptNum ≤ state.attemptCount

/-- The job is completed or cancelled. -/
def Node.IsOver (n : Node) (jobID : String) : Prop :=
  n.fsm.statusOf jobID = .completed ∨ n.fsm.statusOf jobID = .cancelled

instance (n : Node) (jobID : String) : Decidable (n.IsOver jobID) :=
  inferInstanceAs (Decidable (_ ∨ _))

lemma Node.WithinLimit.of_limited {start : Node} {maxAttempts : ℤ}
    (h : (n.jobView jobID (start.webhooks jobID)).Limited maxAttempts) :
    start.WithinLimit maxAttempts jobID n := by
  obtain ⟨state, hstate, hwithin⟩ := h
  refine ⟨?_, state, hstate, hwithin.increasing, hwithin.counted⟩
  have hstarted : (n.webhooks jobID : ℤ) - start.webhooks jobID ≤ max maxAttempts 0 :=
    hwithin.started_le.trans hwithin.count_le
  omega

lemma Node.IsOver.jobView (h : n.IsOver jobID) (before : ℕ) : (n.jobView jobID before).IsOver := by
  have hover : (n.fsm.statusOf jobID).isOver = true := by
    rcases h with h | h
    · rw [h]
      rfl
    · rw [h]
      rfl
  cases hstate : n.fsm.executionStates.lookup jobID with
  | none =>
    rw [statusOf_of_none hstate] at hover
    cases hover
  | some state =>
    rw [statusOf_of_lookup hstate] at hover
    exact ⟨state, hstate, hover⟩

/-- A job that has just been created is tended by the calls that follow. -/
lemma tended_withCalls (maxAttempts : ℤ) (job : Job) (calls : List StatusCall)
    {others : ℕ → Program Act Unit} (hothers : ∀ t, All (Apart job.id) (others t))
    (hstate : n.fsm.executionStates.lookup job.id = some (newExecutionState job.id job.createdAt)) :
    Tended handle (Node.jobView job.id (n.webhooks job.id)) (Careful job.id)
      (fun _ _ _ _ _ => True) (JobView.Limited maxAttempts) (fun _ => True) (Apart job.id) 0
      (withCalls maxAttempts calls others n) where
  own := by
    have hv : (n.jobView job.id (n.webhooks job.id)).Limited maxAttempts := by
      refine ⟨_, hstate, ?_⟩
      simpa [Node.jobView] using JobExecutionState.Within.new job.id job.createdAt
    exact wpWith_mono tends_mono (wpWith_forEach tends_mono calls
      (fun call _ v hv => call.limited_program maxAttempts hv) hv) fun _ v hv => ⟨hv, trivial⟩
  others := by
    intro t ht
    simpa only [withCalls, if_neg ht] using hothers t

/-- **The attempt limit.**  The calls come one after the other, with other threads beside them.
From the creation of the job on, the webhook is started at most `maxAttempts` times, the attempts on
record have increasing numbers up to the count, and once the job is completed or cancelled, the
webhook is not started any more. -/
theorem attempt_limit (maxAttempts : ℤ) (job : Job) (calls : List StatusCall)
    (others : ℕ → Program Act Unit) (hothers : ∀ t, All (Apart job.id) (others t)) (n : Node)
    (thread : ℕ) (faults : ColdFaults) (sched later : List (ℕ × Env)) :
    let created := n.applyCommand thread faults { type := .createJob, job := some job }
    let c := (withCalls maxAttempts calls others created).run handle sched
    created.WithinLimit maxAttempts job.id c.state ∧
      (c.state.IsOver job.id →
        (c.run handle later).state.webhooks job.id = c.state.webhooks job.id) := by
  intro created c
  have hstate : created.fsm.executionStates.lookup job.id
      = some (newExecutionState job.id job.createdAt) := by
    simp [created, apply_createJob]
  have hframe : ∀ t, t ≠ 0 → ∀ {β : Type} (a : Act β) (e : Env) (m : Node), True →
      Apart job.id β a → (handle t β a e m).1.jobView job.id (created.webhooks job.id)
        = m.jobView job.id (created.webhooks job.id) :=
    fun t _ _ a e m _ ha => jobView_of_apart ha t e m
  have htended := (tended_withCalls maxAttempts job calls hothers hstate).run hframe
    (along_of_forall handle (fun _ _ _ _ _ => trivial) _ sched)
  refine ⟨.of_limited htended.holds, fun hover => ?_⟩
  have hkeeps := htended.run_keeps hframe
    (S := fun v => v.IsOver ∧
      v.started = (c.state.jobView job.id (created.webhooks job.id)).started)
    (fun a e m ha h => isOver_of_careful ha h) ⟨hover.jobView _, rfl⟩
    (along_of_forall handle (fun _ _ _ _ _ => trivial) _ later)
  have hstarted : ((c.run handle later).state.webhooks job.id : ℤ) - created.webhooks job.id
      = c.state.webhooks job.id - created.webhooks job.id := hkeeps.2
  omega

/-- A job that is executed beside the others, as thread `1`. -/
def executeOther (t : ℕ) : Program Act Unit :=
  if t = 1 then
    (⟨"n1", 2⟩ : ExecutionManager).execute { id := "b", type := .unico, webhookURL := "http://h" }
      >>= fun _ => pure ()
  else pure ()

lemma apart_executeOther (t : ℕ) : All (Apart "a") (executeOther t) := by
  refine all_ite.mpr ⟨fun _ => All.bind ?_ fun _ => trivial, fun _ => trivial⟩
  exact ExecutionManager.apart_execute _ (by decide)

/-- Three calls of `Execute` under a limit of two, on different nodes, with pruning in between and
while another job is executed: the first webhook call fails, the second succeeds, and there is no
third. -/
theorem attempt_limit_one_retry :
    let job : Job := { id := "a", type := .unico, webhookURL := "http://h" }
    let calls := [.execute "n1" job, .pruneOldAttempts 5000000000, .execute "n2" job,
      .execute "n1" job]
    let created := (nodeWithStatus .pending).applyCommand 0 {}
      { type := .createJob, job := some job }
    let failing : Env := { now := 10, webhook := .response 500 1 }
    let sched := (List.range 42).map (fun i => (i % 2, failing)) ++
      List.replicate 30 (0, Env.calm 20)
    let later := List.replicate 10 (0, Env.calm 30)
    let c := (withCalls 2 calls executeOther created).run handle sched
    c.state.IsOver "a" ∧ c.state.webhooks "a" = 2 ∧ c.state.webhooks "b" = 1 ∧
      created.WithinLimit 2 "a" c.state ∧
      (c.run handle later).state.webhooks "a" = c.state.webhooks "a" := by
  intro job calls created failing sched later c
  have hover : c.state.IsOver "a" := by decide +kernel
  have hlimit := attempt_limit 2 job calls executeOther apart_executeOther
    (nodeWithStatus .pending) 0 {} sched later
  exact ⟨hover, by decide +kernel, by decide +kernel, hlimit.1, hlimit.2 hover⟩

end ScheduledDb
