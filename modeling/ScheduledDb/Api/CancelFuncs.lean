import ScheduledDb.Api.StatusHandlers
import ScheduledDb.Core.Erasure
import ScheduledDb.Slots.ExecutionManager

/-!
# The table of cancel functions

`Execute` makes a context for its webhook call and keeps the function that cancels it in
`em.cancelFuncs`, under the id of the job, until it returns; `ExecutionManager.CancelJob`, called by
the handler of a cancel request, looks the function up and calls it.  All accesses are under a mutex,
one at a time, so that executions and requests interleave between them.

The actions on the table come on top of those of a node.  Without them the programs here are those of
`ScheduledDb.Slots.ExecutionManager` and `ScheduledDb.Api.StatusHandlers`
(**`node_run_without_table`**), so that what is known of all interleavings of those holds here.

Of the table itself:

* what is in it belongs to an execution of that job which has not returned, an execution is not
  cancelled unless its job was asked for, and nothing stays behind (**`cancelFuncs_sound`**);
* as long as executions of a job do not overlap, `CancelJob` finds the one that is on its way
  (**`cancelJob_finds_running`**).  With an overlap it may find none: the entry of the second replaces
  that of the first, and the first that returns deletes it.
-/

namespace ScheduledDb

open Program Function ExecutionManager Config

/-- The actions of a node, and those on contexts and the table. -/
inductive ManagerAct : Type → Type 1 where
  | node {β : Type} (a : Act β) : ManagerAct β
  /-- `context.WithTimeout`, and the new cancel function is put in the table. -/
  | storeCancel (jobID : String) : ManagerAct ℕ
  | deleteCancel (jobID : String) : ManagerAct Unit
  | loadCancel (jobID : String) : ManagerAct (Option ℕ)
  /-- A call of the cancel function of a context. -/
  | cancel (ctx : ℕ) : ManagerAct Unit

/-- A node with an execution manager.  Contexts are numbered in the order in which they are made. -/
structure ManagerState where
  node : Node
  /-- For which jobs contexts were made. -/
  contexts : List String := []
  cancelFuncs : Finmap fun _ : String => ℕ := ∅
  /-- The contexts whose cancel function was called. -/
  cancelled : Finset ℕ := ∅
  /-- The job and the context of a thread that has stored a cancel function and not deleted it yet.
  Nothing in the programs reads this or the next field. -/
  running : Finmap fun _ : ℕ => String × ℕ := ∅
  /-- The jobs that `CancelJob` was called for. -/
  asked : Finset String := ∅

namespace ManagerState

def handle (thread : ℕ) : Handler ManagerAct Env ManagerState := fun _ a e s =>
  match a with
  | .node a =>
    ({ s with node := (ScheduledDb.handle thread _ a e s.node).1 },
      (ScheduledDb.handle thread _ a e s.node).2)
  | .storeCancel jobID =>
    ({ s with
        contexts := s.contexts ++ [jobID]
        cancelFuncs := s.cancelFuncs.insert jobID s.contexts.length
        running := s.running.insert thread (jobID, s.contexts.length) },
      s.contexts.length)
  | .deleteCancel jobID =>
    ({ s with
        cancelFuncs := s.cancelFuncs.erase jobID
        running := s.running.erase thread }, ())
  | .loadCancel jobID => ({ s with asked := insert jobID s.asked }, s.cancelFuncs.lookup jobID)
  | .cancel ctx => ({ s with cancelled := insert ctx s.cancelled }, ())

end ManagerState

/-- A program that leaves the table alone. -/
def onNode {α : Type} (p : Program Act α) : Program ManagerAct α := p.embed fun _ => .node

namespace ExecutionManager

/-- `callWebhook` with its context.  The deferred calls come last, in reverse order. -/
def callTracked (em : ExecutionManager) (job : Job) (attemptNum : ℤ) :
    Program ManagerAct (Option String) := do
  let ctx ← perform (.storeCancel job.id)
  let err ← onNode (em.callWebhook job attemptNum)
  perform (.deleteCancel job.id)
  perform (.cancel ctx)
  pure err

/-- The attempt is announced, and then made with a context. -/
def startTracked (em : ExecutionManager) (job : Job) (attemptNum : ℤ) :
    Program ManagerAct (Option String) := do
  if attemptNum > em.maxAttempts then pure (some "exceeded max attempts")
  else do
    match ← onNode (em.statusTracker.markInProgress job.id em.nodeID) with
    | some err => pure (some ("failed to mark job in progress: " ++ err))
    | none => em.callTracked job attemptNum

/-- `Execute` -/
def executeTracked (em : ExecutionManager) (job : Job) : Program ManagerAct (Option String) := do
  match ← onNode (StatusTracker.canExecute job.id) with
  | .error err => pure (some ("failed to check execution status: " ++ err))
  | .ok false => pure none
  | .ok true => do
      let attemptNum ← onNode (nextAttempt job.id)
      em.startTracked job attemptNum

/-- `ExecutionManager.CancelJob` -/
def cancelJob (jobID : String) : Program ManagerAct Bool := do
  match ← perform (.loadCancel jobID) with
  | none => pure false
  | some ctx => do
      perform (.cancel ctx)
      pure true

end ExecutionManager

namespace Handlers

/-- `CancelJob` for a job that is found in progress or not. -/
def cancelFound (id reason : String) (wasInProgress : Bool) : Program ManagerAct ApiResponse := do
  if wasInProgress then do
    let _ ← ExecutionManager.cancelJob id
    onNode (markJobCancelled id reason true)
  else onNode (markJobCancelled id reason false)

/-- The handler `CancelJob`, with an execution manager. -/
def cancelJobTracked (id reason : String) : Program ManagerAct ApiResponse := do
  if ← perform (.node .isLeader) then
    if id = "" then pure (.error 400 "Job ID is required")
    else do
      match ← perform (.node (.getJob id)) with
      | none => pure (.error 404 "Job not found")
      | some _ => do
          match ← onNode (StatusTracker.getStatus id) with
          | .ok state => cancelFound id reason (state.status = .inProgress)
          | .error _ => cancelFound id reason false
  else pure (.plain .proxied)

end Handlers

/-! ## Threads -/

/-- What a thread does: an execution, a cancel request, or something without contexts. -/
inductive ManagerTask where
  | execute (em : ExecutionManager) (job : Job)
  | cancel (id reason : String)
  | other (p : Program Act Unit)

namespace ManagerTask

def program : ManagerTask → Program ManagerAct Unit
  | execute em job => em.executeTracked job >>= fun _ => pure ()
  | cancel id reason => Handlers.cancelJobTracked id reason >>= fun _ => pure ()
  | other p => onNode p

/-- The same without the table. -/
def plain : ManagerTask → Program Act Unit
  | execute em job => em.execute job >>= fun _ => pure ()
  | cancel id reason => Handlers.cancelJob id reason >>= fun _ => pure ()
  | other p => p

/-- The job for which a thread makes a context. -/
def own : ManagerTask → Option String
  | execute _ job => some job.id
  | _ => none

end ManagerTask

/-- Tasks side by side, on a node on which nothing is on its way. -/
def managerConfig (tasks : ℕ → ManagerTask) (n : Node) : Config ManagerAct ManagerState where
  state := { node := n }
  threads := fun t => (tasks t).program

/-! ## Without the table -/

/-- What is left of an action. -/
def ManagerAct.seen (β : Type) (a : ManagerAct β) : Option (Act β) :=
  match a with
  | .node a => some a
  | _ => none

section Erasure

variable {α : Type}

lemma erases_onNode (p : Program Act α) : Erases ManagerAct.seen (onNode p) p :=
  .embed (f := fun _ => ManagerAct.node) (fun _ _ => rfl) p

lemma ExecutionManager.erases_callTracked (em : ExecutionManager) (job : Job) (attemptNum : ℤ) :
    Erases ManagerAct.seen (em.callTracked job attemptNum) (em.callWebhook job attemptNum) := by
  refine .hidden rfl fun ctx => ?_
  have hcall := (erases_onNode (em.callWebhook job attemptNum)).bind fun err =>
    Erases.hidden (a := ManagerAct.deleteCancel job.id) rfl fun _ =>
      Erases.hidden (a := ManagerAct.cancel ctx) rfl fun _ => .done err
  have hbind : (em.callWebhook job attemptNum >>= fun err => Program.done err)
      = em.callWebhook job attemptNum := bind_done _
  rwa [hbind] at hcall

lemma ExecutionManager.erases_executeTracked (em : ExecutionManager) (job : Job) :
    Erases ManagerAct.seen (em.executeTracked job) (em.execute job) := by
  refine (erases_onNode _).bind fun can => ?_
  match can with
  | .error err => exact .done _
  | .ok false => exact .done _
  | .ok true =>
    refine (erases_onNode _).bind fun attemptNum => ?_
    unfold startTracked startAttempt
    split
    · exact .done _
    · refine (erases_onNode _).bind fun marked => ?_
      cases marked with
      | some err => exact .done _
      | none => exact em.erases_callTracked job attemptNum

lemma Handlers.erases_cancelFound (id reason : String) (wasInProgress : Bool) :
    Erases ManagerAct.seen (cancelFound id reason wasInProgress)
      (markJobCancelled id reason wasInProgress) := by
  cases wasInProgress with
  | false => exact erases_onNode _
  | true =>
    refine .hidden rfl fun found => ?_
    cases found with
    | none => exact erases_onNode _
    | some ctx => exact .hidden rfl fun _ => erases_onNode _

lemma Handlers.erases_cancelJobTracked (id reason : String) :
    Erases ManagerAct.seen (cancelJobTracked id reason) (cancelJob id reason) := by
  refine .kept rfl fun leads => ?_
  cases leads with
  | false => exact .done _
  | true =>
    simp only [withJob]
    by_cases hid : id = ""
    · simp only [if_pos hid]
      exact .done _
    · simp only [if_neg hid]
      refine .kept rfl fun job => ?_
      cases job with
      | none => exact .done _
      | some job =>
        refine (erases_onNode _).bind fun status => ?_
        cases status with
        | ok state => exact erases_cancelFound id reason _
        | error err => exact erases_cancelFound id reason false

lemma ManagerTask.erases (task : ManagerTask) : Erases ManagerAct.seen task.program task.plain := by
  cases task with
  | execute em job => exact (em.erases_executeTracked job).bind fun _ => .done ()
  | cancel id reason => exact (Handlers.erases_cancelJobTracked id reason).bind fun _ => .done ()
  | other p => exact erases_onNode p

end Erasure

/-- **The table on top.**  Executions and cancel requests that interleave, with the table, do to the
node what they do without it, on a schedule with fewer turns. -/
theorem node_run_without_table (tasks : ℕ → ManagerTask) (n : Node) (sched : List (ℕ × Env)) :
    ∃ sched', sched'.Sublist sched ∧
      ((managerConfig tasks n).run ManagerState.handle sched).state.node
        = (run handle ⟨n, fun t => (tasks t).plain⟩ sched').state ∧
      ∀ t, (((managerConfig tasks n).run ManagerState.handle sched).threads t).isDone →
        ((run handle ⟨n, fun t => (tasks t).plain⟩ sched').threads t).isDone := by
  have hkept : ∀ (tid : ℕ) (β : Type) (a : ManagerAct β) (a' : Act β) (e : Env) (s : ManagerState),
      ManagerAct.seen β a = some a' → handle tid β a' e s.node
        = ((ManagerState.handle tid β a e s).1.node, (ManagerState.handle tid β a e s).2) := by
    intro tid β a a' e s ha
    cases a with
    | node a =>
      obtain rfl := Option.some.inj ha
      rfl
    | _ => cases ha
  have hhidden : ∀ (tid : ℕ) (β : Type) (a : ManagerAct β) (e : Env) (s : ManagerState),
      ManagerAct.seen β a = none → (ManagerState.handle tid β a e s).1.node = s.node := by
    intro tid β a e s ha
    cases a with
    | node a => cases ha
    | _ => rfl
  let plain : Config Act Node := ⟨n, fun t => (tasks t).plain⟩
  have hstart : (managerConfig tasks n).state.node = plain.state := rfl
  obtain ⟨sched', hsub, hstate, hthreads⟩ := run_erases hkept hhidden hstart
    (fun t => (tasks t).erases) sched
  exact ⟨sched', hsub, hstate, fun t => (hthreads t).isDone⟩

/-! ## Contexts and their threads -/

/-- Where a thread is with a context: it has none, it has stored the cancel function of its own, it
has deleted it again, or it has found that of another. -/
inductive ContextPhase where
  | idle
  | running (id : String) (ctx : ℕ)
  | ended (ctx : ℕ)
  | found (id : String) (ctx : ℕ)

open ContextPhase

/-- How a thread that may make contexts for one job goes from phase to phase. -/
def contextProtocol (own : Option String) : Transformer ManagerAct ContextPhase := fun _ a Q g =>
  match a with
  | .node _ => ∀ b, Q b g
  | .storeCancel id => g = idle ∧ own = some id ∧ ∀ ctx, Q ctx (running id ctx)
  | .deleteCancel id => ∃ ctx, g = running id ctx ∧ Q () (ended ctx)
  | .loadCancel id => g = idle ∧ Q none idle ∧ ∀ ctx, Q (some ctx) (found id ctx)
  | .cancel ctx => (g = ended ctx ∨ ∃ id, g = found id ctx) ∧ Q () idle

section Protocol

variable {own : Option String} {α : Type} {g : ContextPhase}

/-- A program without contexts stays in its phase. -/
lemma wpWith_onNode {Q : α → ContextPhase → Prop} (p : Program Act α) (h : ∀ a, Q a g) :
    wpWith (contextProtocol own) (onNode p) Q g := by
  induction p with
  | done a => exact h a
  | step a k ih => exact fun b => ih b

lemma contextProtocol_mono : (contextProtocol own).Mono := by
  intro β a Q Q' g h hQ
  cases a with
  | node a => exact fun b => hQ _ _ (h b)
  | storeCancel id => exact ⟨h.1, h.2.1, fun ctx => hQ _ _ (h.2.2 ctx)⟩
  | deleteCancel id =>
    obtain ⟨ctx, hg, hnext⟩ := h
    exact ⟨ctx, hg, hQ _ _ hnext⟩
  | loadCancel id => exact ⟨h.1, hQ _ _ h.2.1, fun ctx => hQ _ _ (h.2.2 ctx)⟩
  | cancel ctx => exact ⟨h.1, hQ _ _ h.2⟩

lemma ExecutionManager.wpWith_callTracked (em : ExecutionManager) (job : Job) (attemptNum : ℤ) :
    wpWith (contextProtocol (some job.id)) (em.callTracked job attemptNum) (fun _ g => g = idle)
      idle := by
  rw [callTracked, perform_bind, wpWith_step]
  refine ⟨rfl, rfl, fun ctx => wpWith_bind.mpr (wpWith_onNode _ fun err => ?_)⟩
  exact ⟨ctx, rfl, Or.inl rfl, rfl⟩

lemma ExecutionManager.wpWith_executeTracked (em : ExecutionManager) (job : Job) :
    wpWith (contextProtocol (some job.id)) (em.executeTracked job) (fun _ g => g = idle) idle := by
  refine wpWith_bind.mpr (wpWith_onNode _ fun can => ?_)
  match can with
  | .error err => exact rfl
  | .ok false => exact rfl
  | .ok true =>
    refine wpWith_bind.mpr (wpWith_onNode _ fun attemptNum => ?_)
    refine wpWith_ite.mpr ⟨fun _ => rfl, fun _ => wpWith_bind.mpr (wpWith_onNode _ fun marked => ?_)⟩
    cases marked with
    | some err => exact rfl
    | none => exact em.wpWith_callTracked job attemptNum

lemma ExecutionManager.wpWith_cancelJob (jobID : String) :
    wpWith (contextProtocol own) (cancelJob jobID) (fun _ g => g = idle) idle :=
  ⟨rfl, rfl, fun _ => ⟨Or.inr ⟨jobID, rfl⟩, rfl⟩⟩

lemma Handlers.wpWith_cancelFound (id reason : String) (wasInProgress : Bool) :
    wpWith (contextProtocol own) (cancelFound id reason wasInProgress) (fun _ g => g = idle)
      idle := by
  cases wasInProgress with
  | false => exact wpWith_onNode _ fun _ => rfl
  | true =>
    refine wpWith_seq contextProtocol_mono
      (wpWith_cancelJob id) ?_
    rintro _ _ rfl
    exact wpWith_onNode _ fun _ => rfl

lemma Handlers.wpWith_cancelJobTracked (id reason : String) :
    wpWith (contextProtocol own) (cancelJobTracked id reason) (fun _ g => g = idle) idle := by
  refine fun leads => wpWith_ite.mpr ⟨fun _ => wpWith_ite.mpr ⟨fun _ => rfl, fun _ => ?_⟩,
    fun _ => rfl⟩
  rw [perform_bind, wpWith_step]
  intro job
  cases job with
  | none => exact rfl
  | some job =>
    refine wpWith_bind.mpr (wpWith_onNode _ fun status => ?_)
    cases status with
    | ok state => exact wpWith_cancelFound id reason _
    | error err => exact wpWith_cancelFound id reason false

/-- Every task keeps to the protocol, and ends without a context. -/
lemma ManagerTask.wpWith_program (task : ManagerTask) :
    wpWith (contextProtocol task.own) task.program (fun _ g => g = idle) idle := by
  cases task with
  | execute em job =>
    exact wpWith_seq contextProtocol_mono (em.wpWith_executeTracked job)
      fun _ _ h => h
  | cancel id reason =>
    exact wpWith_seq contextProtocol_mono
      (Handlers.wpWith_cancelJobTracked id reason) fun _ _ h => h
  | other p => exact wpWith_onNode p fun _ => rfl

/-- A thread that has returned has no context. -/
lemma phase_of_isDone {p : Program ManagerAct Unit}
    (h : wpWith (contextProtocol own) p (fun _ g => g = idle) g) (hdone : p.isDone = true) :
    g = idle := by
  cases p with
  | done a => exact h
  | step a k => cases hdone

end Protocol

/-- No cancel function is stored for a job of which an execution is on its way. -/
def ManagerAct.Alone {β : Type} (s : ManagerState) (a : ManagerAct β) : Prop :=
  match a with
  | .storeCancel id => ∀ entry ∈ s.running.sortedEntries, entry.2.1 ≠ id
  | _ => True

instance {β : Type} (s : ManagerState) : ∀ a : ManagerAct β, Decidable (a.Alone s)
  | .node _ => isTrue trivial
  | .storeCancel id =>
    inferInstanceAs (Decidable (∀ entry ∈ s.running.sortedEntries, entry.2.1 ≠ id))
  | .deleteCancel _ => isTrue trivial
  | .loadCancel _ => isTrue trivial
  | .cancel _ => isTrue trivial

namespace ManagerState

/-- Table, contexts and phases fit together. -/
structure Tidy (own : ℕ → Option String) (s : ManagerState) (phase : ℕ → ContextPhase) : Prop where
  running_iff : ∀ t id ctx, s.running.lookup t = some (id, ctx) ↔ phase t = .running id ctx
  owned : ∀ t id ctx, phase t = .running id ctx → own t = some id
  table : ∀ id ctx, s.cancelFuncs.lookup id = some ctx → ∃ t, phase t = .running id ctx
  made : ∀ t id ctx, phase t = .running id ctx → s.contexts[ctx]? = some id
  unique : ∀ t t' id id' ctx, phase t = .running id ctx → phase t' = .running id' ctx → t = t'
  ended : ∀ t ctx, phase t = .ended ctx → ctx < s.contexts.length ∧
    ∀ t' id, phase t' ≠ .running id ctx
  found : ∀ t id ctx, phase t = .found id ctx → s.contexts[ctx]? = some id ∧ id ∈ s.asked
  cancelled : ∀ ctx ∈ s.cancelled, ctx < s.contexts.length ∧
    ∀ t id, phase t = .running id ctx → id ∈ s.asked

/-- Whatever is on its way is in the table. -/
def Listed (s : ManagerState) (phase : ℕ → ContextPhase) : Prop :=
  ∀ t id ctx, phase t = .running id ctx → s.cancelFuncs.lookup id = some ctx

namespace Tidy

variable {own : ℕ → Option String} {s : ManagerState} {phase : ℕ → ContextPhase} {t : ℕ} {e : Env}
  {g : ContextPhase} {ctx : ℕ} {id : String}

/-- A thread in another phase than the one that a thread has just gone to. -/
lemma of_update {g' : ContextPhase} {t' : ℕ} (h : update phase t g t' = g') (hne : g ≠ g') :
    t' ≠ t ∧ phase t' = g' := by
  by_cases ht : t' = t
  · subst ht
    rw [update_self] at h
    exact absurd h hne
  · rw [update_of_ne ht] at h
    exact ⟨ht, h⟩

lemma lt_length (h : s.Tidy own phase) {t : ℕ} (hrunning : phase t = .running id ctx) :
    ctx < s.contexts.length :=
  (List.getElem?_eq_some_iff.mp (h.made t id ctx hrunning)).1

lemma storeCancel (h : s.Tidy own phase) (hidle : phase t = .idle) (hown : own t = some id) :
    (handle t _ (.storeCancel id) e s).1.Tidy own
      (update phase t (.running id s.contexts.length)) := by
  -- a thread that ran before is another one, with an older context
  have hcases : ∀ t' id' ctx, update phase t (.running id s.contexts.length) t'
      = .running id' ctx → t' = t ∧ id' = id ∧ ctx = s.contexts.length ∨
        t' ≠ t ∧ phase t' = .running id' ctx ∧ ctx < s.contexts.length := by
    intro t' id' ctx hrunning
    by_cases ht : t' = t
    · subst ht
      rw [update_self] at hrunning
      injection hrunning with hid hctx
      exact Or.inl ⟨rfl, hid.symm, hctx.symm⟩
    · rw [update_of_ne ht] at hrunning
      exact Or.inr ⟨ht, hrunning, h.lt_length hrunning⟩
  refine ⟨fun t' id' ctx => ?_, ?_, ?_, ?_, ?_, ?_, ?_, ?_⟩
  · by_cases ht : t' = t
    · subst ht
      simp [handle]
    · simpa [handle, ht, Finmap.lookup_insert_ite] using h.running_iff t' id' ctx
  · intro t' id' ctx hrunning
    rcases hcases t' id' ctx hrunning with ⟨rfl, rfl, -⟩ | ⟨-, hold, -⟩
    · exact hown
    · exact h.owned t' id' ctx hold
  · intro id' ctx hlookup
    simp only [handle, Finmap.lookup_insert_ite] at hlookup
    split_ifs at hlookup with hid
    · refine ⟨t, ?_⟩
      rw [update_self, hid, ← Option.some.inj hlookup]
    · obtain ⟨t', ht'⟩ := h.table id' ctx hlookup
      have hne : t' ≠ t := by
        rintro rfl
        rw [hidle] at ht'
        cases ht'
      exact ⟨t', by rwa [update_of_ne hne]⟩
  · intro t' id' ctx hrunning
    rcases hcases t' id' ctx hrunning with ⟨-, rfl, rfl⟩ | ⟨-, hold, hlt⟩
    · simp [handle]
    · rw [handle, List.getElem?_append_left hlt]
      exact h.made t' id' ctx hold
  · intro t1 t2 id1 id2 ctx h1 h2
    rcases hcases t1 id1 ctx h1 with ⟨rfl, -, hctx⟩ | ⟨-, h1, hlt⟩ <;>
      rcases hcases t2 id2 ctx h2 with ⟨rfl, -, hctx'⟩ | ⟨-, h2, hlt'⟩
    · rfl
    · omega
    · omega
    · exact h.unique t1 t2 id1 id2 ctx h1 h2
  · intro t' ctx hended
    obtain ⟨hlt, hnone⟩ := h.ended t' ctx (of_update hended nofun).2
    refine ⟨by simp [handle]; omega, fun t2 id2 h2 => ?_⟩
    rcases hcases t2 id2 ctx h2 with ⟨-, -, hctx⟩ | ⟨-, h2, -⟩
    · omega
    · exact hnone t2 id2 h2
  · intro t' id' ctx hfound
    obtain ⟨hmade, hasked⟩ := h.found t' id' ctx (of_update hfound nofun).2
    refine ⟨?_, hasked⟩
    rw [handle, List.getElem?_append_left (List.getElem?_eq_some_iff.mp hmade).1]
    exact hmade
  · intro ctx hctx
    obtain ⟨hlt, hasked⟩ := h.cancelled ctx hctx
    refine ⟨by simp [handle]; omega, fun t' id' hrunning => ?_⟩
    rcases hcases t' id' ctx hrunning with ⟨-, -, rfl⟩ | ⟨-, hold, -⟩
    · omega
    · exact hasked t' id' hold

/-- A thread that goes to a phase without a stored function; no context is made. -/
lemma leave (h : s.Tidy own phase) {s' : ManagerState} (hcontexts : s'.contexts = s.contexts)
    (hasked : s.asked ⊆ s'.asked)
    (hrunning : ∀ t', s'.running.lookup t' = if t' = t then none else s.running.lookup t')
    (htable : ∀ id ctx, s'.cancelFuncs.lookup id = some ctx →
      s.cancelFuncs.lookup id = some ctx ∧ phase t ≠ .running id ctx)
    (hcancelled : ∀ ctx ∈ s'.cancelled, ctx ∈ s.cancelled ∨ ctx < s.contexts.length ∧
      ∀ t' id, phase t' = .running id ctx → id ∈ s'.asked) (hnot : ∀ id ctx, g ≠ .running id ctx)
    (hended : ∀ ctx, g = .ended ctx → ∃ id, phase t = .running id ctx)
    (hfound : ∀ id ctx, g = .found id ctx → s.contexts[ctx]? = some id ∧ id ∈ s'.asked) :
    s'.Tidy own (update phase t g) := by
  have hold : ∀ t' id ctx, update phase t g t' = .running id ctx →
      t' ≠ t ∧ phase t' = .running id ctx := fun t' id ctx h' => of_update h' (hnot id ctx)
  refine ⟨fun t' id ctx => ?_, fun t' id ctx h' => h.owned t' id ctx (hold t' id ctx h').2,
    fun id ctx hlookup => ?_, fun t' id ctx h' => hcontexts ▸ h.made t' id ctx (hold t' id ctx h').2,
    fun t1 t2 id1 id2 ctx h1 h2 =>
      h.unique t1 t2 id1 id2 ctx (hold t1 id1 ctx h1).2 (hold t2 id2 ctx h2).2,
    fun t' ctx h' => ?_, fun t' id ctx h' => ?_, fun ctx hctx => ?_⟩
  · by_cases ht : t' = t
    · simp [hrunning, ht, hnot]
    · simpa [hrunning, ht] using h.running_iff t' id ctx
  · obtain ⟨hlookup, hother⟩ := htable id ctx hlookup
    obtain ⟨t', ht'⟩ := h.table id ctx hlookup
    have hne : t' ≠ t := fun ht => hother (ht ▸ ht')
    exact ⟨t', by rwa [update_of_ne hne]⟩
  · rw [hcontexts]
    by_cases ht : t' = t
    · subst ht
      rw [update_self] at h'
      obtain ⟨id, hid⟩ := hended ctx h'
      refine ⟨h.lt_length hid, fun t2 id2 h2 => ?_⟩
      obtain ⟨hne, h2⟩ := hold t2 id2 ctx h2
      exact hne (h.unique t2 t' id2 id ctx h2 hid)
    · rw [update_of_ne ht] at h'
      exact ⟨(h.ended t' ctx h').1, fun t2 id2 h2 =>
        (h.ended t' ctx h').2 t2 id2 (hold t2 id2 ctx h2).2⟩
  · rw [hcontexts]
    by_cases ht : t' = t
    · subst ht
      rw [update_self] at h'
      exact hfound id ctx h'
    · rw [update_of_ne ht] at h'
      exact ⟨(h.found t' id ctx h').1, hasked (h.found t' id ctx h').2⟩
  · rw [hcontexts]
    rcases hcancelled ctx hctx with hctx | ⟨hlt, hnew⟩
    · obtain ⟨hlt, hall⟩ := h.cancelled ctx hctx
      exact ⟨hlt, fun t' id h' => hasked (hall t' id (hold t' id ctx h').2)⟩
    · exact ⟨hlt, fun t' id h' => hnew t' id (hold t' id ctx h').2⟩

/-- The threads on their way, for `leave` of one that is not. -/
lemma running_of_not (h : s.Tidy own phase) (hnot : ∀ id ctx, phase t ≠ .running id ctx) (t' : ℕ) :
    s.running.lookup t' = if t' = t then none else s.running.lookup t' := by
  split_ifs with ht
  · rw [Option.eq_none_iff_forall_ne_some, ht]
    exact fun entry hentry => hnot entry.1 entry.2 ((h.running_iff t entry.1 entry.2).mp hentry)
  · rfl

lemma deleteCancel (h : s.Tidy own phase) (hrunning : phase t = .running id ctx) :
    (handle t _ (.deleteCancel id) e s).1.Tidy own (update phase t (.ended ctx)) := by
  refine h.leave rfl subset_rfl (fun t' => ?_) (fun id' ctx' hlookup => ?_)
    (fun _ hctx => Or.inl hctx) (by simp) (fun ctx' hctx => ?_) (by simp)
  · exact Finmap.lookup_erase_ite ..
  · simp only [handle, Finmap.lookup_erase_ite] at hlookup
    split_ifs at hlookup with hid
    refine ⟨hlookup, fun hrunning' => hid ?_⟩
    rw [hrunning] at hrunning'
    injection hrunning' with hid'
    exact hid'.symm
  · injection hctx with hctx
    exact ⟨id, hctx ▸ hrunning⟩

/-- A look at the table finds nothing, or a function of the job. -/
lemma loadCancel (h : s.Tidy own phase) (hidle : phase t = .idle)
    (hg : g = .idle ∨ ∃ ctx, s.cancelFuncs.lookup id = some ctx ∧ g = .found id ctx) :
    (handle t _ (.loadCancel id) e s).1.Tidy own (update phase t g) := by
  have hnot : ∀ id' ctx', phase t ≠ .running id' ctx' := by simp [hidle]
  refine h.leave rfl (Finset.subset_insert _ _) (h.running_of_not hnot)
    (fun id' ctx' hlookup => ⟨hlookup, hnot id' ctx'⟩) (fun _ hctx => Or.inl hctx) ?_ ?_ ?_
  · rcases hg with rfl | ⟨ctx, -, rfl⟩ <;> simp
  · rcases hg with rfl | ⟨ctx, -, rfl⟩ <;> simp
  · intro id' ctx' hfound
    rcases hg with rfl | ⟨ctx, hlookup, rfl⟩
    · cases hfound
    · injection hfound with hid hctx
      obtain ⟨t', ht'⟩ := h.table id ctx hlookup
      rw [← hid, ← hctx]
      exact ⟨h.made t' id ctx ht', Finset.mem_insert_self _ _⟩

/-- A context that is cancelled has ended, or belongs to a job that was asked for. -/
lemma cancel (h : s.Tidy own phase)
    (hphase : phase t = .ended ctx ∨ ∃ id, phase t = .found id ctx) :
    (handle t _ (.cancel ctx) e s).1.Tidy own (update phase t .idle) := by
  have hnot : ∀ id' ctx', phase t ≠ .running id' ctx' := by
    rcases hphase with hphase | ⟨id, hphase⟩ <;> simp [hphase]
  refine h.leave rfl subset_rfl (h.running_of_not hnot)
    (fun id' ctx' hlookup => ⟨hlookup, hnot id' ctx'⟩) (fun ctx' hctx' => ?_) (by simp) (by simp)
    (by simp)
  rcases Finset.mem_insert.mp hctx' with rfl | hctx'
  · right
    rcases hphase with hphase | ⟨id, hphase⟩
    · obtain ⟨hlt, hnone⟩ := h.ended t ctx' hphase
      exact ⟨hlt, fun t' id' h' => absurd h' (hnone t' id')⟩
    · obtain ⟨hmade, hasked⟩ := h.found t id ctx' hphase
      refine ⟨(List.getElem?_eq_some_iff.mp hmade).1, fun t' id' h' => ?_⟩
      rw [h.made t' id' ctx' h'] at hmade
      exact Option.some.inj hmade ▸ hasked
  · exact Or.inl hctx'

/-- A new entry replaces none that is in use. -/
lemma listed_storeCancel (h : s.Tidy own phase) (hlisted : s.Listed phase)
    (halone : (ManagerAct.storeCancel id).Alone s) :
    (handle t _ (.storeCancel id) e s).1.Listed
      (update phase t (.running id s.contexts.length)) := by
  intro t' id' ctx hrunning
  simp only [handle, Finmap.lookup_insert_ite]
  by_cases ht : t' = t
  · subst ht
    rw [update_self] at hrunning
    injection hrunning with hid hctx
    rw [if_pos hid.symm, hctx]
  · rw [update_of_ne ht] at hrunning
    have hentry := (Finmap.mem_sortedEntries _ t' (id', ctx)).mpr
      ((h.running_iff t' id' ctx).mpr hrunning)
    rw [if_neg (halone _ hentry)]
    exact hlisted t' id' ctx hrunning

/-- The entry that is deleted is the thread's own. -/
lemma listed_deleteCancel (h : s.Tidy own phase) (hlisted : s.Listed phase)
    (hrunning : phase t = .running id ctx) :
    (handle t _ (.deleteCancel id) e s).1.Listed (update phase t (.ended ctx)) := by
  intro t' id' ctx' hrunning'
  obtain ⟨hne, hrunning'⟩ := of_update hrunning' nofun
  have hlookup := hlisted t' id' ctx' hrunning'
  have hid : id' ≠ id := by
    rintro rfl
    rw [hlisted t id' ctx hrunning] at hlookup
    obtain rfl := Option.some.inj hlookup
    exact hne (h.unique t' t id' id' ctx hrunning' hrunning)
  simp only [handle, Finmap.lookup_erase_ite, if_neg hid]
  exact hlookup

/-- **One action** of a thread takes its protocol on, keeps the table tidy, and complete if no other
execution of the job is under way. -/
lemma step (h : s.Tidy own phase) {β : Type} {a : ManagerAct β} {Q : β → ContextPhase → Prop}
    (hT : contextProtocol (own t) β a Q (phase t)) :
    ∃ g, Q (handle t β a e s).2 g ∧
      (handle t β a e s).1.Tidy own (update phase t g) ∧
      (a.Alone s → s.Listed phase →
        (handle t β a e s).1.Listed (update phase t g)) := by
  cases a with
  | node a =>
    refine ⟨phase t, hT _, ?_⟩
    rw [update_eq_self]
    exact ⟨{ h with }, fun _ hlisted => hlisted⟩
  | storeCancel id =>
    exact ⟨_, hT.2.2 _, h.storeCancel hT.1 hT.2.1, fun halone hlisted =>
      h.listed_storeCancel hlisted halone⟩
  | deleteCancel id =>
    obtain ⟨ctx, hrunning, hQ⟩ := hT
    exact ⟨_, hQ, h.deleteCancel hrunning, fun _ hlisted => h.listed_deleteCancel hlisted hrunning⟩
  | loadCancel id =>
    obtain ⟨hidle, hnone, hsome⟩ := hT
    have hkept : ∀ g, (∀ id' ctx', g ≠ .running id' ctx') → s.Listed phase →
        (handle t _ (.loadCancel id) e s).1.Listed (update phase t g) :=
      fun g hnot hlisted t' id' ctx' h' => hlisted t' id' ctx' (of_update h' (hnot id' ctx')).2
    show ∃ g, Q (s.cancelFuncs.lookup id) g ∧ _
    cases hlookup : s.cancelFuncs.lookup id with
    | none => exact ⟨_, hnone, h.loadCancel hidle (Or.inl rfl), fun _ => hkept _ (by simp)⟩
    | some ctx =>
      exact ⟨_, hsome ctx, h.loadCancel hidle (Or.inr ⟨ctx, hlookup, rfl⟩), fun _ =>
        hkept _ (by simp)⟩
  | cancel ctx =>
    exact ⟨_, hT.2, h.cancel hT.1, fun _ hlisted t' id' ctx' h' =>
      hlisted t' id' ctx' (of_update h' nofun).2⟩

lemma start (own : ℕ → Option String) (n : Node) :
    ({ node := n } : ManagerState).Tidy own fun _ => .idle where
  running_iff := by simp
  owned := by simp
  table := by simp
  made := by simp
  unique := by simp
  ended := by simp
  found := by simp
  cancelled := by simp

end Tidy

end ManagerState

/-! ## Whole interleavings -/

/-- The phases of the threads at the end of a run. -/
lemma exists_phases (tasks : ℕ → ManagerTask) (n : Node) (sched : List (ℕ × Env)) (strict : Prop)
    (halong : Along ManagerState.handle (fun c _ _ a _ => strict → a.Alone c.state)
      (managerConfig tasks n) sched) :
    let c := (managerConfig tasks n).run ManagerState.handle sched
    ∃ phase, (c.state.Tidy (fun t => (tasks t).own) phase ∧ (strict → c.state.Listed phase)) ∧
      ∀ t, wpWith (contextProtocol (tasks t).own) (c.threads t) (fun _ g => g = idle) (phase t) := by
  refine run_local (T := fun t => contextProtocol (tasks t).own) (R := fun _ g => g = idle)
    (I := fun s phase => ManagerState.Tidy (fun t => (tasks t).own) s phase ∧
      (strict → ManagerState.Listed s phase)) ?_ ⟨.start _ n, fun _ => ?_⟩
    (fun t => (tasks t).wpWith_program) halong
  · intro c phase tid β a e Q halone hI _ hT
    obtain ⟨g, hQ, htidy, hlisted⟩ := hI.1.step hT
    exact ⟨g, hQ, htidy, fun hstrict => hlisted (halone hstrict) (hI.2 hstrict)⟩
  · intro t id ctx hrunning
    cases hrunning

/-- **What is in the table is on its way.**  Whatever executions and cancel requests interleave: a
cancel function in the table is that of an execution of this job which has stored it and has not yet
returned; an execution on its way is cancelled only if its job was asked for; and when all have
returned, the table is empty. -/
theorem cancelFuncs_sound (tasks : ℕ → ManagerTask) (n : Node) (sched : List (ℕ × Env)) :
    let c := (managerConfig tasks n).run ManagerState.handle sched
    (∀ id ctx, c.state.cancelFuncs.lookup id = some ctx →
      ∃ t em job, tasks t = .execute em job ∧ job.id = id ∧
        c.state.running.lookup t = some (id, ctx)) ∧
    (∀ t id ctx, c.state.running.lookup t = some (id, ctx) →
      (c.threads t).isDone = false ∧ (ctx ∈ c.state.cancelled → id ∈ c.state.asked)) ∧
    ((∀ t, (c.threads t).isDone = true) → c.state.cancelFuncs = ∅) := by
  intro c
  obtain ⟨phase, ⟨htidy, -⟩, hlocal⟩ := exists_phases tasks n sched False
    (along_of_forall _ (fun _ _ _ _ _ => False.elim) _ _)
  have hnot : ∀ t id ctx, phase t = .running id ctx → (c.threads t).isDone = false := by
    intro t id ctx hrunning
    cases ht : (c.threads t).isDone with
    | false => rfl
    | true =>
      rw [phase_of_isDone (hlocal t) ht] at hrunning
      cases hrunning
  refine ⟨fun id ctx hlookup => ?_, fun t id ctx hrunning => ?_, fun hall => ?_⟩
  · obtain ⟨t, ht⟩ := htidy.table id ctx hlookup
    have hrunning := (htidy.running_iff t id ctx).mpr ht
    have hown := htidy.owned t id ctx ht
    cases htask : tasks t with
    | execute em job =>
      rw [htask] at hown
      exact ⟨t, em, job, htask, Option.some.inj hown, hrunning⟩
    | cancel id reason | other p =>
      rw [htask] at hown
      cases hown
  · have hphase := (htidy.running_iff t id ctx).mp hrunning
    exact ⟨hnot t id ctx hphase, fun hctx => (htidy.cancelled ctx hctx).2 t id hphase⟩
  · refine Finmap.ext_lookup fun id => ?_
    rw [Finmap.lookup_empty]
    cases hlookup : c.state.cancelFuncs.lookup id with
    | none => rfl
    | some ctx =>
      obtain ⟨t, ht⟩ := htidy.table id ctx hlookup
      have hfalse := hnot t id ctx ht
      rw [hall t] at hfalse
      cases hfalse

/-- **What is on its way is found.**  As long as no two executions of a job overlap, `CancelJob`
reports success exactly if an execution of the job is on its way, and cancels the context of that
execution and nothing else. -/
theorem cancelJob_finds_running (tasks : ℕ → ManagerTask) (n : Node) (sched : List (ℕ × Env))
    (halone : Along ManagerState.handle (fun c _ _ a _ => a.Alone c.state)
      (managerConfig tasks n) sched) (thread : ℕ) (env : ℕ → Env) (id : String) :
    let s := ((managerConfig tasks n).run ManagerState.handle sched).state
    let after := run (ManagerState.handle thread) (cancelJob id) env s
    (after.2.1 = true ↔ ∃ t ctx, s.running.lookup t = some (id, ctx)) ∧
    (∀ t ctx, s.running.lookup t = some (id, ctx) → after.1.cancelled = insert ctx s.cancelled) ∧
    (after.2.1 = false → after.1.cancelled = s.cancelled) := by
  intro s after
  obtain ⟨phase, ⟨htidy, hlisted⟩, -⟩ := exists_phases tasks n sched True
    (halone.mono _ fun _ _ _ _ _ h _ => h)
  have hlookup : ∀ ctx, s.cancelFuncs.lookup id = some ctx ↔
      ∃ t, s.running.lookup t = some (id, ctx) := by
    intro ctx
    constructor
    · intro h
      obtain ⟨t, ht⟩ := htidy.table id ctx h
      exact ⟨t, (htidy.running_iff t id ctx).mpr ht⟩
    · rintro ⟨t, ht⟩
      exact hlisted trivial t id ctx ((htidy.running_iff t id ctx).mp ht)
  cases hfound : s.cancelFuncs.lookup id with
  | none =>
    have hafter : after = ({ s with asked := insert id s.asked }, false, fun i => env (i + 1)) := by
      simp [after, cancelJob, ManagerState.handle, hfound]
    have hnone : ∀ t ctx, s.running.lookup t ≠ some (id, ctx) := by
      intro t ctx ht
      rw [(hlookup ctx).mpr ⟨t, ht⟩] at hfound
      cases hfound
    rw [hafter]
    refine ⟨?_, fun t ctx ht => absurd ht (hnone t ctx), fun _ => rfl⟩
    simpa using hnone
  | some ctx =>
    have hafter : after = ({ s with
        asked := insert id s.asked
        cancelled := insert ctx s.cancelled }, true, fun i => env (i + 1 + 1)) := by
      simp [after, cancelJob, ManagerState.handle, hfound]
    obtain ⟨t, ht⟩ := (hlookup ctx).mp hfound
    rw [hafter]
    refine ⟨by simpa using ⟨t, ctx, ht⟩, fun t' ctx' ht' => ?_, by simp⟩
    have hsame := (hlookup ctx').mpr ⟨t', ht'⟩
    rw [hfound] at hsame
    rw [Option.some.inj hsame]

/-- Two executions of different jobs and a cancel request. -/
def twoTasks (t : ℕ) : ManagerTask :=
  if t = 0 then .execute ⟨"n", 3⟩ { id := "a", type := .unico }
  else if t = 1 then .execute ⟨"n", 3⟩ { id := "b", type := .unico }
  else if t = 2 then .cancel "a" "r"
  else .other (pure ())

/-- While both are on their way, `CancelJob` finds the one it is asked for. -/
theorem cancelJob_finds_first :
    let sched := List.replicate 12 (0, Env.calm 7) ++ List.replicate 12 (1, Env.calm 7)
    let s := ((managerConfig twoTasks (StatusTracker.nodeWithStatus .pending)).run
      ManagerState.handle sched).state
    let after := run (ManagerState.handle 2) (cancelJob "a") (fun _ => Env.calm 8) s
    s.running.lookup 1 = some ("b", 1) ∧ after.2.1 = true ∧ after.1.cancelled = {0} := by
  intro sched s after
  have halone : Along ManagerState.handle (fun c _ _ a _ => a.Alone c.state)
      (managerConfig twoTasks (StatusTracker.nodeWithStatus .pending)) sched :=
    along_of_test _ (by decide +kernel)
  have hrunning : s.running.lookup 0 = some ("a", 0) := by decide +kernel
  obtain ⟨hiff, hcancelled, -⟩ := cancelJob_finds_running twoTasks
    (StatusTracker.nodeWithStatus .pending) sched halone 2 (fun _ => Env.calm 8) "a"
  have hnone : s.cancelled = ∅ := by decide +kernel
  refine ⟨by decide +kernel, hiff.mpr ⟨0, 0, hrunning⟩, ?_⟩
  exact (hcancelled 0 0 hrunning).trans (congrArg (insert 0) hnone)

end ScheduledDb
