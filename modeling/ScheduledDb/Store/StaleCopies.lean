import ScheduledDb.Store.StatusTracker

/-!
# Passes over a copy of the execution states

`CheckTimeouts` and `PruneOldAttempts` of `status_tracker.go` read all execution states, look at the
clock, and then issue one command for each job that, by the copy they hold, needs one.  Meanwhile
others write.  A command does not say which copy it comes from: a timeout ends whatever attempt is
going on when it is applied, and a pruning replaces whatever list of attempts there is.

A run starts here when the pass reads, and everything that the other threads do from then on comes
in any order (`at_work`).  What happened is in the trace.  `timeout_overdue_iff` says which timeouts
are right: a retry that starts between the read and the command is ended as if it were the attempt
that the pass has seen (`timeout_ends_retry`).  Pruning is in a module of its own.
-/

namespace ScheduledDb

open Machine Program

deriving instance DecidableEq for Event

/-! ## What the trace tells about a job -/

/-- When the attempt at the job started, if this is an accepted update to `in_progress`. -/
def Event.startsAttempt (jobID : String) : Event → Option ℤ
  | applied _ cmd response =>
    if cmd.type = .updateJobStatus ∧ response.isError = false then
      (cmd.statusCommand.filter fun sc => sc.jobID = jobID ∧ sc.status = .inProgress).map
        StatusCommand.timestamp
    else none
  | _ => none

/-- The starts of attempts at a job, oldest first. -/
def attemptsStarted (jobID : String) (events : List (ℕ × Event)) : List ℤ :=
  events.filterMap fun x => x.2.startsAttempt jobID

@[simp] lemma attemptsStarted_append (jobID : String) (l l' : List (ℕ × Event)) :
    attemptsStarted jobID (l ++ l') = attemptsStarted jobID l ++ attemptsStarted jobID l' :=
  List.filterMap_append

@[simp] lemma attemptsStarted_singleton (jobID : String) (t : ℕ) (x : Event) :
    attemptsStarted jobID [(t, x)] = (x.startsAttempt jobID).toList := by
  cases h : x.startsAttempt jobID <;> simp [attemptsStarted, h]

lemma Event.startsAttempt_of_not_isApplied {x : Event} (h : x.isApplied = false)
    (jobID : String) : x.startsAttempt jobID = none := by
  cases x with
  | applied before cmd response => cases h
  | webhook job => rfl
  | statusChanged oldStatus newStatus => rfl

/-! ## The attempt that is going on -/

lemma Event.startsAttempt_eq_some {before : FSM} {cmd : Command} {response : Response}
    {jobID : String} {t : ℤ} :
    (Event.applied before cmd response).startsAttempt jobID = some t ↔
      cmd.type = .updateJobStatus ∧ response.isError = false ∧ ∃ sc, cmd.statusCommand = some sc ∧
        sc.jobID = jobID ∧ sc.status = .inProgress ∧ sc.timestamp = t := by
  simp only [startsAttempt]
  split_ifs with h
  · simp only [h, true_and, Option.map_eq_some_iff, Option.filter_eq_some_iff, decide_eq_true_eq,
      and_assoc]
  · simp only [false_iff]
    exact fun hall => h ⟨hall.1, hall.2.1⟩

namespace FSM

variable {f : FSM} {cmd : Command} {jobID : String} {state : JobExecutionState}
  {faults : ColdFaults}

/-- A command that starts an attempt leaves the time it started. -/
lemma lastAttemptAt_of_startsAttempt {t : ℤ}
    (hstart : (Event.applied f cmd (f.apply faults cmd).2).startsAttempt jobID = some t)
    (h : (f.apply faults cmd).1.executionStates.lookup jobID = some state) :
    state.lastAttemptAt = t := by
  obtain ⟨htype, haccepted, sc, hsc, rfl, hstatus, rfl⟩ := Event.startsAttempt_eq_some.mp hstart
  rw [apply_eq_statusUpdate htype hsc] at haccepted h
  rw [lookup_statusUpdate, if_pos rfl,
    if_pos ((statusUpdate_accepted_iff faults f sc).mp haccepted)] at h
  obtain rfl := Option.some.inj h
  rw [JobExecutionState.update, hstatus]

/-- A job that is in progress after a command that starts no attempt was so before, in the same
attempt. -/
lemma inProgress_before
    (hstart : (Event.applied f cmd (f.apply faults cmd).2).startsAttempt jobID = none)
    (h : (f.apply faults cmd).1.executionStates.lookup jobID = some state)
    (hstatus : state.status = .inProgress) :
    ∃ old, f.executionStates.lookup jobID = some old ∧ old.status = .inProgress ∧
      old.lastAttemptAt = state.lastAttemptAt := by
  rw [apply_fst] at h
  cases heffect : f.effect faults cmd.wire with
  | putJob job =>
    rw [heffect] at h
    rcases Finmap.lookup_of_insert h with ⟨_, rfl⟩ | hold
    · cases hstatus
    · exact ⟨state, hold, hstatus, rfl⟩
  | dropJob id =>
    rw [heffect] at h
    exact ⟨state, Finmap.lookup_of_erase h, hstatus, rfl⟩
  | putState id written =>
    rw [heffect] at h
    rcases Finmap.lookup_of_insert h with ⟨rfl, rfl⟩ | hold
    · rcases putState_cases heffect with ⟨sc, htype, hsc, rfl, rfl⟩ | ⟨_, old, kept, hold, rfl⟩
      · split_ifs at hstatus ⊢ with hvalid
        · -- an accepted update to `in_progress` is a start
          exfalso
          rw [update_status] at hstatus
          have htype : cmd.type = .updateJobStatus := htype
          have hsc : cmd.statusCommand = some sc := hsc
          have haccepted := (statusUpdate_accepted_iff faults f sc).mpr hvalid
          rw [← apply_eq_statusUpdate htype hsc] at haccepted
          have hsome : (Event.applied f cmd (f.apply faults cmd).2).startsAttempt sc.jobID
              = some sc.timestamp :=
            Event.startsAttempt_eq_some.mpr ⟨htype, haccepted, sc, hsc, rfl, hstatus, rfl⟩
          rw [hstart] at hsome
          cases hsome
        · cases hold : f.executionStates.lookup sc.jobID with
          | none =>
            simp only [stateFor, hold, Option.getD_none] at hstatus
            cases hstatus
          | some old =>
            simp only [stateFor, hold, Option.getD_some] at hstatus ⊢
            exact ⟨old, rfl, hstatus, rfl⟩
      · exact ⟨old, hold, hstatus, rfl⟩
    · exact ⟨state, hold, hstatus, rfl⟩
  | _ =>
    rw [heffect] at h
    exact ⟨state, h, hstatus, rfl⟩

end FSM

/-- The attempt that is going on is the last one started, or, if none was, the one of the copy. -/
def AttemptsFrom (copy : FSM) (events : List (ℕ × Event)) (f : FSM) : Prop :=
  ∀ jobID state, f.executionStates.lookup jobID = some state → state.status = .inProgress →
    (attemptsStarted jobID events).getLast? = some state.lastAttemptAt ∨
      attemptsStarted jobID events = [] ∧ ∃ old, copy.executionStates.lookup jobID = some old ∧
        old.status = .inProgress ∧ old.lastAttemptAt = state.lastAttemptAt

namespace AttemptsFrom

variable {copy f : FSM} {events : List (ℕ × Event)}

lemma refl (f : FSM) : AttemptsFrom f [] f :=
  fun _ state h hstatus => Or.inr ⟨rfl, state, h, hstatus, rfl⟩

/-- A command is applied: an accepted start is the last one from now on. -/
lemma apply (h : AttemptsFrom copy events f) (thread : ℕ) (faults : ColdFaults) (cmd : Command) :
    AttemptsFrom copy (events ++ [(thread, .applied f cmd (f.apply faults cmd).2)])
      (f.apply faults cmd).1 := by
  intro jobID state hstate hstatus
  rw [attemptsStarted_append, attemptsStarted_singleton]
  cases hstart : (Event.applied f cmd (f.apply faults cmd).2).startsAttempt jobID with
  | some t =>
    left
    rw [FSM.lastAttemptAt_of_startsAttempt hstart hstate]
    simp
  | none =>
    obtain ⟨old, hold, holdStatus, hsame⟩ := FSM.inProgress_before hstart hstate hstatus
    rw [← hsame]
    simpa using h jobID old hold holdStatus

lemma other (h : AttemptsFrom copy events f) (thread : ℕ) {x : Event} (hx : x.isApplied = false) :
    AttemptsFrom copy (events ++ [(thread, x)]) f := by
  intro jobID state hstate hstatus
  rw [attemptsStarted_append, attemptsStarted_singleton, Event.startsAttempt_of_not_isApplied hx]
  simpa using h jobID state hstate hstatus

end AttemptsFrom

/-! ## A pass among other threads -/

/-- The copy of a pass, in the order of its loop. -/
def Node.copy (n : Node) (e : Env) : List (Σ _ : String, JobExecutionState) :=
  e.order _ n.fsm.executionStates.sortedEntries

lemma Node.mem_copy {n : Node} {e : Env} {entry : Σ _ : String, JobExecutionState} :
    entry ∈ n.copy e ↔ n.fsm.executionStates.lookup entry.1 = some entry.2 := by
  rw [Node.copy, (e.order_perm _ _).mem_iff]
  exact Finmap.mem_sortedEntries _ entry.1 entry.2

/-- A pass: it reads all execution states, looks at the clock, and goes to work. -/
def passOver (work : List (Σ _ : String, JobExecutionState) → ℤ → Program Act Unit) :
    Program Act Unit := do
  let allStates ← perform .getAllExecutionStates
  let now ← perform .now
  work allStates now

section Pass

variable {pass : ℕ} {c : Config Act Node}
  {work : List (Σ _ : String, JobExecutionState) → ℤ → Program Act Unit}

/-- A run in which the pass reads at its first step and looks at the clock at its next one, as it
looks when the pass goes to work: the others have kept what they keep. -/
lemma at_work (hpass : c.threads pass = passOver work) (e e' : Env) {s₁ : List (ℕ × Env)}
    (hs₁ : ∀ x ∈ s₁, x.1 ≠ pass) {P : ℕ → ∀ β : Type, Act β → Prop} {I : Node → Prop}
    (hstep : ∀ tid (β : Type) (a : Act β) (e : Env) (s : Node), P tid β a → I s →
      I (handle tid β a e s).1)
    (hothers : ∀ t, t ≠ pass → All (P t) (c.threads t)) (hI : I c.state) :
    ∃ c₁ : Config Act Node,
      (∀ s₂, c.run handle ((pass, e) :: s₁ ++ (pass, e') :: s₂) = c₁.run handle s₂) ∧
      I c₁.state ∧ c₁.threads pass = work (c.state.copy e) e'.now ∧
      ∀ t, t ≠ pass → All (P t) (c₁.threads t) := by
  have hall : ∀ t, t ≠ pass → All (P t) ((c.step handle pass e).threads t) :=
    fun t ht => Config.all_threads_step (hothers t ht) pass e
  have hread : (c.step handle pass e).state = c.state ∧
      (c.step handle pass e).threads pass = .step .now (work (c.state.copy e)) := by
    rw [Config.step, hpass]
    exact ⟨rfl, Function.update_self _ _ _⟩
  have hmid : I ((c.step handle pass e).run handle s₁).state :=
    Config.run_among hstep (fun x hx => hall x.1 (hs₁ x hx)) (hread.1 ▸ hI)
  have hwaits : ((c.step handle pass e).run handle s₁).threads pass
      = .step .now (work (c.state.copy e)) :=
    (Config.run_threads_of_forall_ne handle _ hs₁).trans hread.2
  have hlook : (((c.step handle pass e).run handle s₁).step handle pass e').state
        = ((c.step handle pass e).run handle s₁).state ∧
      (((c.step handle pass e).run handle s₁).step handle pass e').threads pass
        = work (c.state.copy e) e'.now := by
    rw [Config.step, hwaits]
    exact ⟨rfl, Function.update_self _ _ _⟩
  refine ⟨((c.step handle pass e).run handle s₁).step handle pass e', fun s₂ => ?_,
    hlook.1 ▸ hmid, hlook.2, fun t ht => ?_⟩
  · rw [List.cons_append, Config.run_cons, Config.run_append, Config.run_cons]
  · exact Config.all_threads_step (Config.all_threads_run (hall t ht) s₁) pass e'

end Pass

/-! ## Timeouts -/

namespace StatusTracker

/-- `CheckTimeouts` on a leader, from the moment it reads. -/
def timeoutPass (st : StatusTracker) (timeout : Duration) : Program Act Unit :=
  passOver fun allStates now =>
    foldEach allStates (st.checkTimeout timeout now) [] >>= fun _ => pure ()

lemma checkTimeouts_eq (st : StatusTracker) (timeout : Duration) :
    (st.checkTimeouts timeout >>= fun _ => pure ())
      = (do if ← perform .isLeader then st.timeoutPass timeout else pure ()) := by
  simp only [checkTimeouts, timeoutPass, passOver, perform_bind, step_bind]
  refine congrArg (step Act.isLeader) (funext fun leader => ?_)
  cases leader with
  | false => rfl
  | true => simp [bind_bind]

/-- The attempt started more than `timeout` before `now`. -/
def Overdue (timeout : Duration) (now start : ℤ) : Prop := (now - start) * 1000000000 > timeout

instance (timeout : Duration) (now start : ℤ) : Decidable (Overdue timeout now start) :=
  inferInstanceAs (Decidable (_ > _))

/-- A command of the pass: the job is overdue by the copy. -/
def TimesOut (copy : FSM) (timeout : Duration) (now : ℤ) (cmd : Command) : Prop :=
  ∃ jobID old, cmd = FSM.statusUpdate { jobID := jobID, status := .timeout, timestamp := now } ∧
    copy.executionStates.lookup jobID = some old ∧
    wrap64 (now - old.lastAttemptAt) > seconds timeout

lemma overdue_of_check {timeout : Duration} {now start : ℤ} (hrange : InRange (now - start))
    (h : wrap64 (now - start) > seconds timeout) : Overdue timeout now start := by
  rw [wrap64_of_mem hrange, seconds] at h
  unfold Overdue
  have hdiv := Int.tmod_add_mul_tdiv timeout 1000000000
  have hmod := Int.tmod_lt_of_pos timeout (b := 1000000000) (by omega)
  omega

lemma all_timeoutWork (st : StatusTracker) (timeout : Duration) (n : Node) (e : Env) (now : ℤ) :
    All (Issues (TimesOut n.fsm timeout now))
      (foldEach (n.copy e) (st.checkTimeout timeout now) [] >>= fun _ => pure ()) := by
  refine (all_foldEach (fun timedOut entry hentry => ?_) []).bind fun _ => trivial
  simp only [checkTimeout, all_ite]
  refine ⟨fun hoverdue => ?_, fun _ => trivial⟩
  have hcmd : TimesOut n.fsm timeout now
      (FSM.statusUpdate { jobID := entry.1, status := .timeout, timestamp := now }) :=
    ⟨entry.1, entry.2, rfl, Node.mem_copy.mp hentry, hoverdue.2⟩
  refine (Store.issues_of_quiet (Store.quiet_of_detached (all_applyStatusCommand hcmd))
    fun _ h => h).bind fun r => ?_
  cases r with
  | some err => trivial
  | none =>
    exact (Store.issues_of_quiet (Store.quiet_of_detached (all_notifyCallback st _ _))
      fun _ h => h).bind fun _ => trivial

/-- What is known about the commands of the pass at work: each comes from the copy, and what it
finds is what was started since. -/
structure TimeoutsFrom (pass : ℕ) (copy : FSM) (timeout : Duration) (now : ℤ)
    (events : List (ℕ × Event)) (f : FSM) : Prop where
  attempts : AttemptsFrom copy events f
  commands : ∀ l before cmd response, l ++ [(pass, .applied before cmd response)] <+: events →
    TimesOut copy timeout now cmd ∧ AttemptsFrom copy l before ∧
      ∃ faults, response = (before.apply faults cmd).2

namespace TimeoutsFrom

variable {pass : ℕ} {copy : FSM} {timeout : Duration} {now : ℤ}

lemma refl (f : FSM) : TimeoutsFrom pass f timeout now [] f where
  attempts := .refl f
  commands := fun l _ _ _ h => by simp at h

/-- One step of the pass or of another thread. -/
lemma step {n s : Node} (h : n.Since (TimeoutsFrom pass copy timeout now) s) {tid : ℕ} {β : Type}
    {a : Act β} (ha : tid = pass → Issues (TimesOut copy timeout now) β a) (e : Env) :
    n.Since (TimeoutsFrom pass copy timeout now) (handle tid β a e s).1 := by
  refine h.step (fun events cmd hcmd hfrom => ?_) (fun events x hx hfrom => ?_)
  · refine ⟨hfrom.attempts.apply tid e.faults cmd, fun l before cmd' response hl => ?_⟩
    rcases List.prefix_concat_iff.mp hl with heq | hl
    · obtain ⟨rfl, hlast⟩ := List.append_inj' heq rfl
      simp only [List.cons.injEq, Prod.mk.injEq, Event.applied.injEq, and_true] at hlast
      obtain ⟨rfl, rfl, rfl, rfl⟩ := hlast
      exact ⟨(ha rfl).of_command hcmd, hfrom.attempts, e.faults, rfl⟩
    · exact hfrom.commands l before cmd' response hl
  · refine ⟨hfrom.attempts.other tid hx, fun l before cmd' response hl => ?_⟩
    rcases List.prefix_concat_iff.mp hl with heq | hl
    · obtain ⟨rfl, hlast⟩ := List.append_inj' heq rfl
      simp only [List.cons.injEq, Prod.mk.injEq, and_true] at hlast
      obtain ⟨rfl, rfl⟩ := hlast
      cases hx
    · exact hfrom.commands l before cmd' response hl

end TimeoutsFrom

/-- A timeout is accepted only for a job that is in progress. -/
lemma inProgress_of_timeout {faults : ColdFaults} {f : FSM} {sc : StatusCommand}
    (hstatus : sc.status = .timeout)
    (h : (f.apply faults (FSM.statusUpdate sc)).2.isError = false) :
    ∃ state, f.executionStates.lookup sc.jobID = some state ∧ state.status = .inProgress := by
  have hvalid := (FSM.statusUpdate_accepted_iff faults f sc).mp h
  cases hstate : f.executionStates.lookup sc.jobID with
  | none => simp [FSM.statusOf, hstate, hstatus, validateStateTransition, validTransitions] at hvalid
  | some state =>
    refine ⟨state, rfl, ?_⟩
    rw [FSM.statusOf_of_lookup hstate, hstatus] at hvalid
    cases hs : state.status with
    | inProgress => rfl
    | _ => simp [hs, validateStateTransition, validTransitions] at hvalid

/-- **When only overdue attempts time out.**  The pass `pass` reads the execution states, with any
threads beside it, and looks at the clock; the rest of the run is arbitrary.  Every timeout of the
pass that the state machine accepts is for a job of the copy.  The attempt it ends is overdue
exactly if the last attempt that was started since the pass read is overdue, if there is one; the
elapsed time of the copy being an `int64`. -/
theorem timeout_overdue_iff (st : StatusTracker) (timeout : Duration) (pass : ℕ)
    (c : Config Act Node) (hpass : c.threads pass = st.timeoutPass timeout) (e e' : Env)
    (s₁ s₂ : List (ℕ × Env)) (hs₁ : ∀ x ∈ s₁, x.1 ≠ pass) :
    let c' := c.run handle ((pass, e) :: s₁ ++ (pass, e') :: s₂)
    ∀ l before cmd response,
      l ++ [(pass, .applied before cmd response)] <+: c.state.newEvents c'.state →
      response.isError = false →
      ∃ jobID old state,
        cmd = FSM.statusUpdate { jobID := jobID, status := .timeout, timestamp := e'.now } ∧
        c.state.fsm.executionStates.lookup jobID = some old ∧
        before.executionStates.lookup jobID = some state ∧
        (InRange (e'.now - old.lastAttemptAt) →
          (Overdue timeout e'.now state.lastAttemptAt ↔
            ∀ t ∈ (attemptsStarted jobID l).getLast?, Overdue timeout e'.now t)) := by
  intro c' l before cmd response hl haccepted
  have hstep : ∀ tid (β : Type) (a : Act β) (e : Env) (s : Node),
      (tid = pass → Issues (TimesOut c.state.fsm timeout e'.now) β a) →
      c.state.Since (TimeoutsFrom pass c.state.fsm timeout e'.now) s →
      c.state.Since (TimeoutsFrom pass c.state.fsm timeout e'.now) (handle tid β a e s).1 :=
    fun _ _ _ e _ ha hs => TimeoutsFrom.step hs ha e
  obtain ⟨c₁, hrun, hI, hown, hothers⟩ := at_work hpass e e' hs₁ hstep
    (fun t ht => all_true.mono fun _ _ h => absurd h ht) (Node.Since.start (.refl _))
  have hend : c.state.Since (TimeoutsFrom pass c.state.fsm timeout e'.now) c'.state := by
    rw [show c' = c₁.run handle s₂ from hrun s₂]
    refine Config.run_all hstep (fun tid => ?_) hI s₂
    by_cases ht : tid = pass
    · subst ht
      rw [hown]
      exact (all_timeoutWork st timeout c.state e e'.now).mono fun _ ha _ => ha
    · exact hothers tid ht
  obtain ⟨⟨jobID, old, rfl, hold, hcheck⟩, hattempts, faults, rfl⟩ :=
    hend.newEvents.commands l before cmd response hl
  obtain ⟨state, hstate, hstatus⟩ := inProgress_of_timeout rfl haccepted
  refine ⟨jobID, old, state, rfl, hold, hstate, fun hrange => ?_⟩
  rcases hattempts jobID state hstate hstatus with hlast | ⟨hnone, old', hold', _, hsame⟩
  · rw [hlast]
    simp
  · obtain rfl : old = old' := Option.some.inj (hold.symm.trans hold')
    rw [hnone, ← hsame]
    exact iff_of_true (overdue_of_check hrange hcheck) (by simp)

/-- A job in progress since second 0.  Thread 0 checks for timeouts after five seconds; thread 1
reports the failure of the attempt and tries again. -/
def retryBeside : Config Act Node where
  state := nodeWithStatus .inProgress
  threads
    | 0 => timeoutPass {} 5000000000
    | 1 => do
        let _ ← markFailed {} "a" (some { attemptNum := 1, startTime := 0, nodeID := "n" })
        let _ ← markInProgress {} "a" "n"
        pure ()
    | _ => pure ()

/-- The pass reads at second `read` and looks at the clock at second 10.  Thread 1 does its work
before it looks, or after that. -/
def passBeside (read : ℤ) (before after : List (ℕ × Env)) : List (ℕ × Env) :=
  (0, Env.calm read) :: before ++ (0, Env.calm 10) :: (after ++ List.replicate 2 (0, Env.calm 10))

def retryAt (now : ℤ) : List (ℕ × Env) := List.replicate 13 (1, Env.calm now)

def timeoutAtTen : Command :=
  FSM.statusUpdate { jobID := "a", status := .timeout, timestamp := 10 }

/-- The attempt fails and is started again at second 3; it is overdue when it is ended. -/
theorem timeout_overdue_after_retry :
    let sched := passBeside 2 (retryAt 3) []
    let events := retryBeside.state.newEvents (retryBeside.run handle sched).state
    let before := (retryBeside.run handle sched.dropLast).state.fsm
    events = events.dropLast ++ [(0, .applied before timeoutAtTen .nil)] ∧
      ∃ state, before.executionStates.lookup "a" = some state ∧ state.lastAttemptAt = 3 ∧
        Overdue 5000000000 10 state.lastAttemptAt := by
  intro sched events before
  have hevents : events = events.dropLast ++ [(0, .applied before timeoutAtTen .nil)] := by
    decide +kernel
  obtain ⟨jobID, old, state, hcmd, hold, hstate, hiff⟩ := timeout_overdue_iff {} 5000000000 0
    retryBeside rfl (Env.calm 2) (Env.calm 10) (retryAt 3) _ (by simp [retryAt]) events.dropLast
    before timeoutAtTen .nil ⟨[], by rw [List.append_nil, ← hevents]; rfl⟩ rfl
  obtain rfl : "a" = jobID :=
    congrArg (fun cmd : Command => (cmd.statusCommand.map StatusCommand.jobID).getD "") hcmd
  have hlast : (before.executionStates.lookup "a").map JobExecutionState.lastAttemptAt = some 3 := by
    decide +kernel
  obtain rfl : { jobID := "a", status := .inProgress, createdAt := 0 } = old :=
    Option.some.inj
      ((by decide : retryBeside.state.fsm.executionStates.lookup "a" = _).symm.trans hold)
  rw [hstate] at hlast
  refine ⟨hevents, state, hstate, Option.some.inj hlast, (hiff (by decide)).mpr ?_⟩
  decide +kernel

/-- **An attempt of no age is timed out**: it started at second 10, when it is ended.  The state
that the timeout finds is the one before the last step. -/
theorem timeout_ends_retry :
    let sched := passBeside 10 [] (retryAt 10)
    let events := retryBeside.state.newEvents (retryBeside.run handle sched).state
    let before := (retryBeside.run handle sched.dropLast).state.fsm
    events = events.dropLast ++ [(0, .applied before timeoutAtTen .nil)] ∧
      (before.executionStates.lookup "a").map JobExecutionState.lastAttemptAt = some 10 ∧
      ¬ Overdue 5000000000 10 10 := by
  decide +kernel

end StatusTracker

end ScheduledDb
