import Mathlib.Data.Multiset.Count
import ScheduledDb.Slots.ExecutionManager

/-!
# Webhook calls and granted attempts

An attempt is *granted* when the state machine accepts the transition of a job into `in_progress`.
Calls of `Execute`, cancellations, timeout checks and deletions run side by side, an atomic step at a
time.  Every webhook call follows an `in_progress` command of its own thread; whether that command
was accepted the thread does not know.  Hence `webhooks_le_grants`: there are no more calls than
grants in every run in which the state machine accepts these commands when they come, and in
`two_webhooks_one_grant` two overlapping calls of `Execute` share one grant.
-/

namespace ScheduledDb

open Program StatusTracker Store Config PersistentSlotQueue List

/-- A command that asks for the transition of the job into `in_progress`. -/
def Command.isGrant (jobID : String) (cmd : Command) : Bool :=
  match cmd.type, cmd.statusCommand with
  | .updateJobStatus, some sc => sc.jobID = jobID && sc.status = .inProgress
  | _, _ => false

lemma Command.isGrant_statusUpdate (jobID : String) (sc : StatusCommand) :
    (FSM.statusUpdate sc).isGrant jobID = (sc.jobID = jobID && sc.status = .inProgress) := rfl

namespace Event

/-- `executeWebhook` was started for the job. -/
def isWebhook (jobID : String) : Event → Bool
  | webhook job => job.id = jobID
  | _ => false

/-- The state machine accepted a transition of the job into `in_progress`. -/
def isGranted (jobID : String) : Event → Bool
  | applied _ cmd response => cmd.isGrant jobID && !response.isError
  | _ => false

end Event

/-! ## Counting by thread -/

/-- How many events of one thread satisfy `p`. -/
def countOf (p : Event → Bool) (thread : ℕ) (trace : List (ℕ × Event)) : ℕ :=
  ((trace.filter fun x => p x.2).map Prod.fst).count thread

@[simp] lemma countOf_append (p : Event → Bool) (thread : ℕ) (l l' : List (ℕ × Event)) :
    countOf p thread (l ++ l') = countOf p thread l + countOf p thread l' := by
  simp [countOf]

@[simp] lemma countOf_nil (p : Event → Bool) (thread : ℕ) : countOf p thread [] = 0 := rfl

lemma countOf_singleton (p : Event → Bool) (thread t : ℕ) (ev : Event) :
    countOf p thread [(t, ev)] = if p ev = true ∧ t = thread then 1 else 0 := by
  by_cases h : p ev = true
  · simp [countOf, h, count_singleton]
  · simp [countOf, h]

/-- The threads of the events that satisfy `p`. -/
def threadsOf (p : Event → Bool) (trace : List (ℕ × Event)) : Multiset ℕ :=
  ((trace.filter fun x => p x.2).map Prod.fst : List ℕ)

lemma count_threadsOf (p : Event → Bool) (trace : List (ℕ × Event)) (thread : ℕ) :
    (threadsOf p trace).count thread = countOf p thread trace := by
  simp [threadsOf, countOf]

lemma card_threadsOf (p : Event → Bool) (trace : List (ℕ × Event)) :
    (threadsOf p trace).card = trace.countP fun x => p x.2 := by
  simp [threadsOf, countP_eq_length_filter]

section Count

variable {p q : Event → Bool} {trace : List (ℕ × Event)}

lemma threadsOf_le (h : ∀ thread, countOf p thread trace ≤ countOf q thread trace) :
    threadsOf p trace ≤ threadsOf q trace := by
  rw [Multiset.le_iff_count]
  intro thread
  rw [count_threadsOf, count_threadsOf]
  exact h thread

/-- No more of the one kind than of the other in every thread, so no more altogether. -/
lemma countP_le_of_countOf_le (h : ∀ thread, countOf p thread trace ≤ countOf q thread trace) :
    (trace.countP fun x => p x.2) ≤ trace.countP fun x => q x.2 := by
  rw [← card_threadsOf, ← card_threadsOf]
  exact Multiset.card_le_card (threadsOf_le h)

/-- If there are not more altogether, there are as many in every thread. -/
lemma countOf_eq_of_countP_le (h : ∀ thread, countOf p thread trace ≤ countOf q thread trace)
    (hle : (trace.countP fun x => q x.2) ≤ trace.countP fun x => p x.2) (thread : ℕ) :
    countOf p thread trace = countOf q thread trace := by
  rw [← card_threadsOf, ← card_threadsOf] at hle
  rw [← count_threadsOf, ← count_threadsOf, Multiset.eq_of_le_of_card_le (threadsOf_le h) hle]

end Count

/-! ## Credit

A thread's credit is the number of its granted attempts that it has not used for a call yet. -/

/-- What an action does to the credit: an `in_progress` command adds one, a call takes one. -/
def credit (jobID : String) : Transformer Act ℕ := fun _ a Q g =>
  match a with
  | .executeWebhook job =>
    if job.id = jobID then 1 ≤ g ∧ ∀ r, Q r (g - 1) else ∀ r, Q r g
  | .raftApply cmd => if cmd.isGrant jobID = true then ∀ r, Q r (g + 1) else ∀ r, Q r g
  | _ => ∀ r, Q r g

lemma credit_mono (jobID : String) : (credit jobID).Mono := by
  intro β a Q Q' g h hQ
  cases a with
  | executeWebhook job =>
    simp only [credit] at h ⊢
    split_ifs at h ⊢
    · exact ⟨h.1, fun r => hQ _ _ (h.2 r)⟩
    · exact fun r => hQ _ _ (h r)
  | raftApply cmd =>
    simp only [credit] at h ⊢
    split_ifs at h ⊢
    · exact fun r => hQ _ _ (h r)
    · exact fun r => hQ _ _ (h r)
  | _ => exact fun r => hQ _ _ (h r)

variable {g : ℕ} {jobID : String} {cmd : Command} {s s' n : Node} {l : ℕ → ℕ}

/-- Actions without grants and calls leave the credit alone. -/
lemma credit_frame {α : Type} {p : Program Act α}
    (h : All (Quiet fun cmd => cmd.isGrant jobID = false) p) {Q : α → ℕ → Prop} (hQ : ∀ a, Q a g) :
    wpWith (credit jobID) p Q g := by
  refine h.wpWith (fun a Q hquiet hQ => ?_) hQ
  cases a with
  | executeWebhook job => exact hquiet.elim
  | raftApply cmd =>
    have hno : ¬ cmd.isGrant jobID = true := by
      have hf : cmd.isGrant jobID = false := hquiet
      simp [hf]
    simpa only [credit, if_neg hno] using hQ
  | _ => exact hQ

lemma credit_propose (jobID : String) (cmd : Command) (g : ℕ) :
    wpWith (credit jobID) (propose cmd)
      (fun r g' => r = none → cmd.isGrant jobID = true → 1 ≤ g') g := by
  simp only [propose, raftApply, perform_bind, wpWith_step, wpWith_ite]
  refine fun r => ⟨fun _ => ?_, fun _ h => by cases h⟩
  by_cases hgrant : cmd.isGrant jobID = true
  · simp only [credit, if_pos hgrant]
    intro r
    cases r with
    | none => exact fun _ _ => Nat.le_add_left 1 g
    | some cause => exact fun h => by cases h
  · simp only [credit, if_neg hgrant]
    intro r
    cases r with
    | none => exact fun _ h => absurd h hgrant
    | some cause => exact fun h => by cases h

/-- A job that is marked as in progress without error gives its thread credit. -/
lemma credit_markInProgress (st : StatusTracker) (jobID nodeID : String) (g : ℕ) :
    wpWith (credit jobID) (st.markInProgress jobID nodeID) (fun r g' => r = none → 1 ≤ g') g := by
  simp only [markInProgress, mark, perform_bind, wpWith_step,
    wpWith_ite]
  refine fun r => ⟨fun _ prev => ?_, fun _ h => by cases h⟩
  refine fun now => ?_
  simp only [applyStatusCommand, wpWith_bind]
  refine wpWith_mono (credit_mono jobID) (credit_propose jobID _ g) fun r g' hg' => ?_
  cases r with
  | some err => exact fun h => by cases h
  | none =>
    have hone : 1 ≤ g' := hg' rfl (by simp [Command.isGrant_statusUpdate])
    refine wpWith_bind.mpr (credit_frame (quiet_of_detached (all_notifyCallback st _ _)) fun _ => ?_)
    exact fun _ => hone

namespace ExecutionManager

variable {jobID : String} {job : Job} {g : ℕ}

/-- A call of the job's webhook takes one grant. -/
lemma credit_executeWebhook {Q : WebhookOutcome → ℕ → Prop} (hg : job.id = jobID → 1 ≤ g)
    (h : ∀ outcome g', Q outcome g') : credit jobID _ (.executeWebhook job) Q g := by
  by_cases hid : job.id = jobID
  · simp only [credit, if_pos hid]
    exact ⟨hg hid, fun outcome => h outcome _⟩
  · simp only [credit, if_neg hid]
    exact fun outcome => h outcome g

lemma credit_callWebhook (em : ExecutionManager) (attemptNum : ℤ) (hg : job.id = jobID → 1 ≤ g) :
    wpWith (credit jobID) (em.callWebhook job attemptNum) (fun _ _ => True) g := by
  -- what comes after the call grants nothing
  have hrecord : ∀ sc : StatusCommand, sc.jobID = job.id →
      (FSM.attemptRecord sc).isGrant jobID = false := fun _ _ => rfl
  have hupdate : ∀ sc : StatusCommand, sc.jobID = job.id → sc.status ≠ .inProgress →
      (FSM.statusUpdate sc).isGrant jobID = false := fun sc _ hstatus => by
    simp [Command.isGrant_statusUpdate, hstatus]
  simp only [callWebhook, perform_bind, wpWith_step]
  intro startTime
  refine credit_executeWebhook hg fun outcome g endTime => ?_
  cases (webhookResult job outcome).2.2 with
  | some err => exact credit_frame (quiet_of_detached
      (all_finishFailed hrecord hupdate em _ _ err)) fun _ => trivial
  | none => exact credit_frame (quiet_of_detached
      (all_finishSucceeded hrecord hupdate em _ _)) fun _ => trivial

lemma credit_startAttempt (em : ExecutionManager) (jobID : String) (job : Job) (attemptNum : ℤ)
    (g : ℕ) : wpWith (credit jobID) (em.startAttempt job attemptNum) (fun _ _ => True) g := by
  refine wpWith_ite.mpr ⟨fun _ => trivial, fun _ => ?_⟩
  by_cases hid : job.id = jobID
  · subst hid
    refine wpWith_bind.mpr (wpWith_mono (credit_mono job.id)
      (credit_markInProgress em.statusTracker job.id em.nodeID g) fun r g' hg' => ?_)
    cases r with
    | some err => trivial
    | none => exact em.credit_callWebhook _ fun _ => hg' rfl
  · have hquiet : All (Quiet fun cmd => cmd.isGrant jobID = false)
        (em.statusTracker.markInProgress job.id em.nodeID) := by
      refine quiet_of_detached (all_mark _ trivial fun now => ?_)
      simp [Command.isGrant_statusUpdate, hid]
    refine wpWith_bind.mpr (credit_frame hquiet fun r => ?_)
    cases r with
    | some err => trivial
    | none => exact em.credit_callWebhook _ fun h => absurd h hid

/-- **`Execute` calls the webhook on credit of its own.** -/
lemma credit_execute (em : ExecutionManager) (jobID : String) (job : Job) (g : ℕ) :
    wpWith (credit jobID) (em.execute job) (fun _ _ => True) g := by
  refine wpWith_bind.mpr (credit_frame (quiet_of_detached (all_canExecute job.id)) fun r => ?_)
  match r with
  | .error err => trivial
  | .ok false => trivial
  | .ok true =>
    exact wpWith_bind.mpr (credit_frame (quiet_of_detached (all_nextAttempt job.id)) fun attemptNum =>
      em.credit_startAttempt jobID job attemptNum g)

end ExecutionManager

/-! ## Interleavings -/

/-- Who works on the job. -/
inductive Party where
  | execute (em : ExecutionManager) (job : Job)
  | markCancelled (st : StatusTracker) (reason : String)
  | checkTimeouts (st : StatusTracker) (timeout : Duration)
  | deleteJob
  | idle

def Party.program (jobID : String) : Party → Program Act Unit
  | execute em job => em.execute job >>= fun _ => pure ()
  | markCancelled st reason => st.markCancelled jobID reason >>= fun _ => pure ()
  | checkTimeouts st timeout => st.checkTimeouts timeout >>= fun _ => pure ()
  | deleteJob => Store.deleteJob PersistentSlotQueue.jobEventHandler jobID >>= fun _ => pure ()
  | idle => pure ()

lemma PersistentSlotQueue.IsSlotCommand.isGrant_eq_false (h : IsSlotCommand cmd) (jobID : String) :
    cmd.isGrant jobID = false := by
  unfold Command.isGrant
  rcases h with h | h
  · rw [h]
  · rw [h]

/-- The queue grants nothing. -/
lemma all_jobEventHandler_isGrant (jobID : String) (event : JobEvent) (job : Option Job) :
    All (Quiet fun cmd => cmd.isGrant jobID = false)
      (jobEventHandler event job) := by
  exact quiet_mono (all_jobEventHandler event job) fun cmd hcmd =>
    IsSlotCommand.isGrant_eq_false hcmd jobID

lemma Party.credit_program (jobID : String) (party : Party) (g : ℕ) :
    wpWith (credit jobID) (party.program jobID) (fun _ _ => True) g := by
  cases party with
  | execute em job =>
    exact wpWith_bind.mpr (wpWith_mono (credit_mono jobID) (em.credit_execute jobID job g)
      fun _ _ _ => trivial)
  | markCancelled st reason =>
    have hquiet : All (Quiet fun cmd => cmd.isGrant jobID = false)
        (st.markCancelled jobID reason) := by
      refine quiet_of_detached (all_mark _ trivial fun now => ?_)
      simp [Command.isGrant_statusUpdate]
    exact wpWith_bind.mpr (credit_frame hquiet fun _ => trivial)
  | checkTimeouts st timeout =>
    have hquiet : All (Quiet fun cmd => cmd.isGrant jobID = false) (st.checkTimeouts timeout) := by
      refine quiet_of_detached (all_checkTimeouts st timeout fun sc hsc => ?_)
      simp [Command.isGrant_statusUpdate, hsc]
    exact wpWith_bind.mpr (credit_frame hquiet fun _ => trivial)
  | deleteJob =>
    have hquiet : All (Quiet fun cmd => cmd.isGrant jobID = false)
        (Store.deleteJob jobEventHandler jobID) :=
      Store.all_deleteJob (all_jobEventHandler_isGrant jobID) rfl
    exact wpWith_bind.mpr (credit_frame hquiet fun _ => trivial)
  | idle => trivial

/-- Every Raft apply commits. -/
def Commits (_ : Config Act Node) (_ : ℕ) (β : Type) (a : Act β) (e : Env) : Prop :=
  match β, a with
  | _, .raftApply _ => e.commit = .ok
  | _, _ => True

/-- When an `in_progress` command for the job comes, the job is in a state that allows it. -/
def GrantsAllowed (jobID : String) (c : Config Act Node) (_ : ℕ) (β : Type) (a : Act β)
    (_ : Env) : Prop :=
  match β, a with
  | _, .raftApply cmd => cmd.isGrant jobID = true →
      validateStateTransition (c.state.fsm.statusOf jobID) .inProgress = none
  | _, _ => True

lemma Command.isGrant_iff : cmd.isGrant jobID = true ↔
    cmd.type = .updateJobStatus ∧
      ∃ sc, cmd.statusCommand = some sc ∧ sc.jobID = jobID ∧ sc.status = .inProgress := by
  unfold Command.isGrant
  split
  · next sc htype hsc => simp [htype, hsc]
  · next hno =>
      simp only [Bool.false_eq_true, false_iff, not_and, not_exists]
      exact fun htype sc hsc => absurd hsc (hno sc htype)

/-- The state machine accepts an `in_progress` command if the job's status allows it. -/
lemma FSM.grant_accepted (hgrant : cmd.isGrant jobID = true) {f : FSM}
    (hvalid : validateStateTransition (f.statusOf jobID) .inProgress = none) (faults : ColdFaults) :
    (f.apply faults cmd).2.isError = false := by
  obtain ⟨htype, sc, hsc, rfl, hstatus⟩ := Command.isGrant_iff.mp hgrant
  rw [FSM.apply_eq_statusUpdate htype hsc, FSM.statusUpdate_accepted_iff, hstatus]
  exact hvalid

/-- In every thread, the calls and the credit make up the grants. -/
def Covered (jobID : String) (n : Node) (s : Node) (l : ℕ → ℕ) : Prop :=
  ∃ ev, s.trace = n.trace ++ ev ∧ ∀ t,
    countOf (Event.isWebhook jobID) t ev + l t = countOf (Event.isGranted jobID) t ev

/-- A step of one thread, by the event it leaves and the credit it changes. -/
lemma Covered.step (h : Covered jobID n s l) {tid : ℕ} {ev : Event}
    (htrace : s'.trace = s.trace ++ [(tid, ev)]) (hown : (if ev.isWebhook jobID then 1 else 0) + g
      = (if ev.isGranted jobID then 1 else 0) + l tid) :
    Covered jobID n s' (Function.update l tid g) := by
  obtain ⟨ev0, hev0, hle⟩ := h
  refine ⟨ev0 ++ [(tid, ev)], by rw [htrace, hev0, append_assoc], fun t => ?_⟩
  have ht := hle t
  rw [countOf_append, countOf_append, countOf_singleton, countOf_singleton]
  by_cases hid : tid = t
  · subst hid
    rw [Function.update_self]
    simp only [and_true]
    omega
  · rw [Function.update_of_ne (Ne.symm hid)]
    simp only [hid, and_false, if_false]
    omega

/-- A step without events. -/
lemma Covered.same (h : Covered jobID n s l) (tid : ℕ) (htrace : s'.trace = s.trace ++ []) :
    Covered jobID n s' (Function.update l tid (l tid)) := by
  rw [Function.update_eq_self]
  rw [append_nil] at htrace
  obtain ⟨ev0, hev0, hle⟩ := h
  exact ⟨ev0, htrace.trans hev0, hle⟩

/-- Every step keeps the calls covered. -/
lemma credit_sound (jobID : String) (n : Node) :
    ∀ (c : Config Act Node) (l : ℕ → ℕ) (tid : ℕ) {β : Type} (a : Act β) (e : Env)
      (Q : β → ℕ → Prop), Commits c tid β a e ∧ GrantsAllowed jobID c tid β a e →
      Covered jobID n c.state l →
      (∀ t, wpWith (credit jobID) (c.threads t) (fun _ _ => True) (l t)) →
      credit jobID β a Q (l tid) →
      ∃ g, Q (handle tid β a e c.state).2 g ∧
        Covered jobID n (handle tid β a e c.state).1 (Function.update l tid g) := by
  intro c l tid β a e Q hcond hcov _ hT
  have htrace := handle_trace tid a e c.state
  cases a with
  | executeWebhook job =>
    simp only [credit] at hT
    split_ifs at hT with hid
    · refine ⟨l tid - 1, hT.2 _, hcov.step htrace ?_⟩
      have hone := hT.1
      simp only [Event.isWebhook, Event.isGranted, hid, decide_true, if_true,
        Bool.false_eq_true, if_false]
      omega
    · refine ⟨l tid, hT _, hcov.step htrace ?_⟩
      simp [Event.isWebhook, Event.isGranted, hid]
  | raftApply cmd =>
    have happlies : e.applies = true := by
      have hok : e.commit = .ok := hcond.1
      simp [Env.applies, hok]
    simp only [Act.events, happlies, if_true] at htrace
    simp only [credit] at hT
    split_ifs at hT with hgrant
    · refine ⟨l tid + 1, hT _, hcov.step htrace ?_⟩
      have haccepted := FSM.grant_accepted hgrant (hcond.2 hgrant) e.faults
      simp only [Event.isWebhook, Event.isGranted, hgrant, haccepted, Bool.not_false,
        Bool.and_self, Bool.false_eq_true, if_true, if_false]
      omega
    · refine ⟨l tid, hT _, hcov.step htrace ?_⟩
      simp [Event.isWebhook, Event.isGranted, hgrant]
  | statusChanged oldStatus newStatus =>
    refine ⟨l tid, hT _, hcov.step htrace ?_⟩
    simp [Event.isWebhook, Event.isGranted]
  | _ => exact ⟨l tid, hT _, hcov.same tid htrace⟩

/-- **At most one call per grant.**  Whatever parties work on the job and however their steps are
interleaved, if every apply commits and every `in_progress` command finds the job in a state that
allows it, then `executeWebhook` was started at most as often as an attempt was granted. -/
theorem webhooks_le_grants (jobID : String) (parties : ℕ → Party) (n : Node)
    (sched : List (ℕ × Env))
    (hcommit : Along handle Commits ⟨n, fun t => (parties t).program jobID⟩ sched)
    (hallowed : Along handle (GrantsAllowed jobID) ⟨n, fun t => (parties t).program jobID⟩ sched) :
    ((n.newEvents (run handle ⟨n, fun t => (parties t).program jobID⟩ sched).state).countP
        fun x => x.2.isWebhook jobID)
      ≤ (n.newEvents (run handle ⟨n, fun t => (parties t).program jobID⟩ sched).state).countP
        fun x => x.2.isGranted jobID := by
  have hstart : Covered jobID n n fun _ => 0 := ⟨[], by simp, fun t => by simp⟩
  obtain ⟨l, ⟨ev, hev, hle⟩, _⟩ := run_local (credit_sound jobID n) hstart
    (fun t => (parties t).credit_program jobID 0) (hcommit.and handle hallowed)
  rw [Node.newEvents, hev, drop_left]
  refine countP_le_of_countOf_le fun t => ?_
  exact le_trans (Nat.le_add_right _ _) (hle t).le

lemma along_commits {sched : List (ℕ × Env)} (h : ∀ x ∈ sched, x.2.commit = .ok)
    (c : Config Act Node) : Along handle Commits c sched := by
  induction sched generalizing c with
  | nil => trivial
  | cons x rest ih =>
    refine ⟨fun β a k _ => ?_, ih (fun y hy => h y (mem_cons_of_mem x hy)) _⟩
    cases a with
    | raftApply cmd => exact h x mem_cons_self
    | _ => trivial

/-- A test for `GrantsAllowed`. -/
def grantsAllowed (jobID : String) (c : Config Act Node) (tid : ℕ) (_ : Env) : Bool :=
  match c.threads tid with
  | .step (.raftApply cmd) _ => !cmd.isGrant jobID ||
      decide (validateStateTransition (c.state.fsm.statusOf jobID) .inProgress = none)
  | _ => true

/-- Two managers set out to execute the same pending job. -/
def twoExecutes : Config Act Node where
  state := StatusTracker.nodeWithStatus .pending
  threads := fun t =>
    (if t < 2 then
      Party.execute ⟨"n", 3⟩ { id := "a", type := .unico, webhookURL := "http://h" }
    else .idle).program "a"

/-- One after the other, they make one call on one grant. -/
theorem webhooks_le_grants_one_after_the_other :
    check handle (grantsAllowed "a") twoExecutes
        (replicate 20 (0, Env.calm 7) ++ replicate 20 (1, Env.calm 7)) = true ∧
      (((nodeWithStatus .pending).newEvents (twoExecutes.run handle
          (replicate 20 (0, Env.calm 7) ++ replicate 20 (1, Env.calm 7))).state).countP
        fun x => x.2.isWebhook "a")
      ≤ ((nodeWithStatus .pending).newEvents (twoExecutes.run handle
          (replicate 20 (0, Env.calm 7) ++ replicate 20 (1, Env.calm 7))).state).countP
        fun x => x.2.isGranted "a" := by
  have hcheck : check handle (grantsAllowed "a") twoExecutes
      (replicate 20 (0, Env.calm 7) ++ replicate 20 (1, Env.calm 7)) = true := by
    decide +kernel
  refine ⟨hcheck, webhooks_le_grants "a"
    (fun t =>
      if t < 2 then Party.execute ⟨"n", 3⟩ { id := "a", type := .unico, webhookURL := "http://h" }
      else .idle)
    (nodeWithStatus .pending) _ (along_commits (fun x hx => ?_) _)
    (along_of_check handle (fun c tid e β a k hthread htest => ?_) hcheck)⟩
  · rcases mem_append.mp hx with hx | hx
    · rw [eq_of_mem_replicate hx]
      rfl
    · rw [eq_of_mem_replicate hx]
      rfl
  · rw [grantsAllowed, hthread] at htest
    cases a with
    | raftApply cmd =>
      intro hgrant
      simpa [hgrant] using htest
    | _ => trivial

/-- **Two calls on one grant**: when their steps alternate, both find the job pending, the second
`in_progress` command is rejected, and both call the webhook. -/
theorem two_webhooks_one_grant :
    Along handle Commits twoExecutes
        ((range 20).map fun i => (i % 2, Env.calm 7)) ∧
      ((((nodeWithStatus .pending).newEvents (twoExecutes.run handle
          ((range 20).map fun i => (i % 2, Env.calm 7))).state).countP
        fun x => x.2.isWebhook "a") = 2) ∧
      (((nodeWithStatus .pending).newEvents (twoExecutes.run handle
          ((range 20).map fun i => (i % 2, Env.calm 7))).state).countP
        fun x => x.2.isGranted "a") = 1 := by
  refine ⟨along_commits (fun x hx => ?_) _, by decide +kernel, by decide +kernel⟩
  obtain ⟨i, _, rfl⟩ := mem_map.mp hx
  rfl

end ScheduledDb
