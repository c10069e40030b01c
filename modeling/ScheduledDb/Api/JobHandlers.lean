import ScheduledDb.Slots.LimitManager
import ScheduledDb.Slots.PersistentSlots
import ScheduledDb.Store.JobRequest

/-!
# Creating and deleting jobs over HTTP

`CreateJob` and `DeleteJob` of `internal/api/job_handlers.go`.  A create request is decoded, made a
job, validated, checked against the limits, stored, and only then counted; a delete request deletes
first and counts then.  Errors of the counting are logged and do not change the answer.

What a node that does not lead does (pass the request on) is not modelled beyond the fact that it
changes nothing here.
-/

namespace ScheduledDb

open Program PersistentSlotQueue

/-- What a handler writes; a request may be passed on to the leader instead. -/
inductive HttpResponse where
  | proxied
  | error (status : ℕ) (message : String)
  | capacity (err : CapacityError)
  | job (job : Job)
  | noContent
  deriving DecidableEq, Repr

/-- What a handler uses: the libraries behind parsing, the limits if there are any, and the removal
of addresses and paths from error texts. -/
structure Handlers where
  parsers : Parsers
  limitManager : Option LimitManager
  sanitizeError : String → String

namespace Handlers

/-- `safeErrorMessage` for a client error. -/
def safeErrorMessage (h : Handlers) (pre err : String) : String :=
  if h.sanitizeError err = "" then pre else pre ++ ": " ++ h.sanitizeError err

def checkCapacity (h : Handlers) (job : Job) : Program Act (Option CapacityError) :=
  match h.limitManager with
  | none => pure none
  | some lm => lm.checkCapacity job

/-- Count a job that was added; an error is only logged. -/
def countAdded (h : Handlers) (job : Job) : Program Act Unit :=
  match h.limitManager with
  | none => pure ()
  | some lm => lm.recordJobAdded job >>= fun _ => pure ()

/-- Count a job that was removed; an error is only logged. -/
def countRemoved (h : Handlers) (job : Job) : Program Act Unit :=
  match h.limitManager with
  | none => pure ()
  | some lm => lm.recordJobRemoved job >>= fun _ => pure ()

/-- `CreateJob` for a job that has passed the checks. -/
def store (h : Handlers) (job : Job) : Program Act HttpResponse := do
  match ← Store.createJob jobEventHandler job with
  | some _ => pure (.error 500 "Failed to create job")
  | none => do
      h.countAdded job
      pure (.job job)

/-- `CreateJob` for a job that is known. -/
def createValid (h : Handlers) (job : Job) : Program Act HttpResponse := do
  match ← job.validate h.parsers with
  | some err => pure (.error 400 (h.safeErrorMessage "Job validation failed" err))
  | none => do
      match ← h.checkCapacity job with
      | some err => pure (.capacity err)
      | none => h.store job

/-- `CreateJob`; the body is `none` if it cannot be decoded. -/
def createJob (h : Handlers) (body : Option CreateJobRequest) : Program Act HttpResponse := do
  if ← perform .isLeader then
    match body with
    | none => pure (.error 400 "Invalid request body")
    | some req => do
        match ← req.toJob h.parsers with
        | .error err => pure (.error 400 (h.safeErrorMessage "Invalid job data" err))
        | .ok job => h.createValid job
  else pure .proxied

/-- `DeleteJob` for a job that exists. -/
def remove (h : Handlers) (id : String) (job : Job) : Program Act HttpResponse := do
  match ← Store.deleteJob jobEventHandler id with
  | some _ => pure (.error 500 "Failed to delete job")
  | none => do
      h.countRemoved job
      pure .noContent

def deleteJob (h : Handlers) (id : String) : Program Act HttpResponse := do
  if ← perform .isLeader then
    if id = "" then pure (.error 400 "Job ID is required")
    else do
      match ← perform (.getJob id) with
      | none => pure (.error 404 "Job not found")
      | some job => h.remove id job
  else pure .proxied

/-! ## What comes before the capacity check -/

/-- Validation only looks at the clock. -/
lemma all_validate {K : ∀ β : Type, Act β → Prop} (hnow : K _ .now) (p : Parsers) (job : Job) :
    All K (job.validate p) := by
  unfold Job.validate
  refine all_ite.mpr ⟨fun _ => trivial, fun _ => ?_⟩
  cases job.type with
  | unico =>
    cases job.timestamp with
    | none => trivial
    | some timestamp =>
      exact ⟨hnow, fun now => all_ite.mpr ⟨fun _ => trivial, fun _ => trivial⟩⟩
  | recurrente =>
    refine all_ite.mpr ⟨fun _ => trivial, fun _ => ?_⟩
    cases p.parseCron job.cronExpr with
    | none => trivial
    | some err => trivial
  | other text => trivial

lemma all_toJob (p : Parsers) (req : CreateJobRequest) :
    All (Quiet Command.LeavesJobs) (req.toJob p) := by
  have hid : All (Quiet Command.LeavesJobs) req.chooseID :=
    all_ite.mpr ⟨fun _ => ⟨trivial, fun _ => trivial⟩, fun _ => trivial⟩
  exact ⟨trivial, fun now => hid.bind fun id => trivial⟩

/-- **A create request up to the capacity check.** Its steps are quiet, so they stay within any `R`
that quiet steps keep; where an answer under `R` is good, only the check and the rest matter. -/
theorem wpWith_createJob_of {σ : Type*} {T : Transformer Act σ} {R : σ → Prop}
    {Q : HttpResponse → σ → Prop} {s : σ} (h : Handlers) (body : Option CreateJobRequest)
    (hT : ∀ {β : Type} (a : Act β) (Q : β → σ → Prop) (s : σ), Quiet Command.LeavesJobs β a →
      R s → (∀ b s', R s' → Q b s') → T β a Q s) (hanswer : ∀ r s, R s → Q r s)
    (hcheck : ∀ job s, R s → wpWith T (h.checkCapacity job) (fun
      | some err => Q (.capacity err)
      | none => wpWith T (h.store job) Q) s) (hs : R s) : wpWith T (h.createJob body) Q s := by
  refine hT .isLeader _ s trivial hs fun leads s0 hs0 =>
    wpWith_ite.mpr ⟨fun _ => ?_, fun _ => hanswer _ _ hs0⟩
  cases body with
  | none => exact hanswer _ _ hs0
  | some req =>
    refine wpWith_bind.mpr ((all_toJob h.parsers req).wpWith_within hT hs0 fun r s1 hs1 => ?_)
    cases r with
    | error err => exact hanswer _ _ hs1
    | ok job =>
      refine wpWith_bind.mpr
        ((all_validate trivial h.parsers job).wpWith_within hT hs1 fun r s2 hs2 => ?_)
      cases r with
      | some err => exact hanswer _ _ hs2
      | none =>
        refine wpWith_bind.mpr ?_
        convert hcheck job s2 hs2 with err s3
        cases err <;> rfl

/-! ## What the handlers do besides storing and deleting -/

/-- An action that leaves jobs, slots and the queue alone, and starts no webhook. -/
def Bystanding : ∀ β : Type, Act β → Prop
  | _, .raftApply cmd => cmd.LeavesSlots ∧ cmd.type ≠ .createJob ∧ cmd.type ≠ .deleteJob
  | _, .queue _ => False
  | _, .executeWebhook _ => False
  | _, _ => True

lemma bystanding_checkCapacity (h : Handlers) (job : Job) :
    All Bystanding (h.checkCapacity job) := by
  unfold checkCapacity
  cases h.limitManager with
  | none => trivial
  | some lm =>
    have hcount : All Bystanding lm.jobCounter.checkCapacity :=
      ⟨trivial, fun _ => all_ite.mpr ⟨fun _ => trivial, fun _ => trivial⟩⟩
    have hmemory : All Bystanding (lm.memoryTracker.checkCapacity (lm.size job)) :=
      ⟨trivial, fun _ => all_ite.mpr ⟨fun _ => trivial, fun _ => trivial⟩⟩
    refine hmemory.bind fun r => ?_
    cases r with
    | none => exact hcount
    | some err => trivial

lemma bystanding_propose {cmd : Command} (hslots : cmd.LeavesSlots)
    (hcreate : cmd.type ≠ .createJob) (hdelete : cmd.type ≠ .deleteJob) :
    All Bystanding (Store.propose cmd) := by
  refine ⟨trivial, fun _ => all_ite.mpr ⟨fun _ => ⟨⟨hslots, hcreate, hdelete⟩, fun r => ?_⟩,
    fun _ => trivial⟩⟩
  cases r with
  | none => trivial
  | some cause => trivial

lemma bystanding_updateMemoryUsage (delta : ℤ) : All Bystanding (Store.updateMemoryUsage delta) :=
  bystanding_propose (by simp [Command.LeavesSlots]) (by simp) (by simp)

lemma bystanding_updateJobCount (delta : ℤ) : All Bystanding (Store.updateJobCount delta) :=
  bystanding_propose (by simp [Command.LeavesSlots]) (by simp) (by simp)

lemma bystanding_countAdded (h : Handlers) (job : Job) : All Bystanding (h.countAdded job) := by
  unfold countAdded
  cases h.limitManager with
  | none => trivial
  | some lm =>
    refine ((bystanding_updateMemoryUsage _).bind fun r => ?_).bind fun _ => trivial
    cases r with
    | some err => trivial
    | none =>
      refine (bystanding_updateJobCount 1).bind fun r => ?_
      cases r with
      | some err => exact (bystanding_updateMemoryUsage _).bind fun _ => trivial
      | none => trivial

lemma bystanding_countRemoved (h : Handlers) (job : Job) : All Bystanding (h.countRemoved job) := by
  unfold countRemoved
  cases h.limitManager with
  | none => trivial
  | some lm =>
    refine ((bystanding_updateMemoryUsage _).bind fun r => ?_).bind fun _ => trivial
    cases r with
    | some err => trivial
    | none => exact bystanding_updateJobCount (-1)

section Rules

variable {σ : Type*} {T : Transformer Act σ} {R R' : σ → Prop} {s : σ} (hT : T.Mono)
  (hstep : ∀ {α : Type} {p : Program Act α}, All Bystanding p → ∀ s, R s →
    wpWith T p (fun _ => R) s)

include hT hstep

/-- **What storing keeps, a create request keeps** from the validation on.  It stores no job without
an id. -/
theorem wpWith_createValid_of
    (hstep' : ∀ {α : Type} {p : Program Act α}, All Bystanding p → ∀ s, R' s →
      wpWith T p (fun _ => R') s) (hR : ∀ s, R s → R' s) (h : Handlers) {job : Job}
    (hcreate : job.id ≠ "" → ∀ s, R s →
      wpWith T (Store.createJob jobEventHandler job) (fun _ => R') s) (hs : R s) :
    wpWith T (h.createValid job) (fun _ => R') s := by
  by_cases hid : job.id = ""
  · rw [createValid, Job.validate, if_pos hid]
    exact hR s hs
  · refine wpWith_seq hT (hstep (all_validate trivial _ job) s hs)
      fun r s1 h1 => ?_
    cases r with
    | some err => exact hR s1 h1
    | none =>
      refine wpWith_seq hT (hstep (h.bystanding_checkCapacity job) s1 h1)
        fun r s2 h2 => ?_
      cases r with
      | some err => exact hR s2 h2
      | none =>
        refine wpWith_seq hT (hcreate hid s2 h2) fun r s3 h3 => ?_
        cases r with
        | some err => exact h3
        | none =>
          exact wpWith_seq hT (hstep' (h.bystanding_countAdded job) s3 h3)
            fun _ _ h4 => h4

/-- **What deleting keeps, a delete request keeps.** -/
theorem wpWith_deleteJob_of (h : Handlers) (id : String)
    (hdelete : ∀ s, R s → wpWith T (Store.deleteJob jobEventHandler id) (fun _ => R) s) (hs : R s) :
    wpWith T (h.deleteJob id) (fun _ => R) s := by
  have hleader : All Bystanding (perform .isLeader) := ⟨trivial, fun _ => trivial⟩
  have hget : All Bystanding (perform (.getJob id)) := ⟨trivial, fun _ => trivial⟩
  refine wpWith_seq hT (hstep hleader s hs) fun leads s0 h0 =>
    wpWith_ite.mpr ⟨fun _ => wpWith_ite.mpr ⟨fun _ => h0, fun _ => ?_⟩, fun _ => h0⟩
  refine wpWith_seq hT (hstep hget s0 h0) fun found s1 h1 => ?_
  cases found with
  | none => exact h1
  | some job =>
    refine wpWith_seq hT (hdelete s1 h1) fun r s2 h2 => ?_
    cases r with
    | some err => exact h2
    | none =>
      exact wpWith_seq hT (hstep (h.bystanding_countRemoved job) s2 h2)
        fun _ _ h3 => h3

end Rules

/-- The job that a create request becomes.  Its first step is `IsLeader`, then comes the clock and,
for a request without an id, a new id. -/
def requestedJob (h : Handlers) (req : CreateJobRequest) (env : ℕ → Env) : Except String Job :=
  req.build h.parsers (if req.id = "" then (env 2).uuid else req.id) (env 1).now

/-- A create request, given what becomes of the job in it. -/
theorem run_createJob_of {I : Node → Prop} {ok : Env → Prop} {thread : ℕ} (h : Handlers)
    (body : Option CreateJobRequest) {env : ℕ → Env} (henv : ∀ i, ok (env i)) {n : Node} (hn : I n)
    (hjob : ∀ req ∈ body, ∀ job, h.requestedJob req env = .ok job →
      wp (handle thread) ok (h.createValid job) (fun _ => I) n) :
    I (run (handle thread) (h.createJob body) env n).1 := by
  unfold createJob
  rw [perform_bind, run_step]
  have hsame : (handle thread _ .isLeader (env 0) n).1 = n := rfl
  rw [hsame]
  split
  · cases body with
    | none => exact hn
    | some req =>
      have hrun : ∃ shift, run (handle thread) (req.toJob h.parsers) (fun i => env (i + 1)) n
          = (n, h.requestedJob req env, fun i => env (i + shift)) := by
        by_cases hid : req.id = ""
        · exact ⟨3, by simp [CreateJobRequest.toJob, CreateJobRequest.chooseID, requestedJob, hid,
            handle]⟩
        · exact ⟨2, by simp [CreateJobRequest.toJob, CreateJobRequest.chooseID, requestedJob, hid,
            handle]⟩
      obtain ⟨shift, hrun⟩ := hrun
      have hready := hjob req rfl
      simp only
      rw [run_bind, hrun]
      cases hbuilt : h.requestedJob req env with
      | error err => exact hn
      | ok job => exact wp_run (hready job hbuilt) fun i => henv (i + shift)
  · exact hn

end Handlers

end ScheduledDb
