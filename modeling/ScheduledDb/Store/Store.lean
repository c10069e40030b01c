import ScheduledDb.Node

/-!
# The store's methods

`internal/store/store.go` as programs.  A method that writes asks whether the node leads, hands a
command to Raft and waits for `future.Error()`; `propose` is that common part.  The answer of the
state machine never gets to the caller: a command the state machine rejects is reported as success.

An error is its text; `none` is `nil`.
-/

namespace ScheduledDb

open Program

inductive JobEvent where
  | created
  | deleted
  deriving DecidableEq, Repr

/-- `JobEventHandler`, with the job or `nil`. -/
abbrev JobEventHandler := JobEvent → Option Job → Program Act Unit

/-- An action that starts no webhook, reads no counter and hands Raft only commands of the kind
`P`. -/
def Quiet (P : Command → Prop) : ∀ β : Type, Act β → Prop
  | _, .raftApply cmd => P cmd
  | _, .executeWebhook _ => False
  | _, .getMemoryUsage => False
  | _, .getJobCount => False
  | _, _ => True

/-- A quiet action that leaves the queue's own data alone. -/
def Detached (P : Command → Prop) : ∀ β : Type, Act β → Prop
  | _, .queue _ => False
  | β, a => Quiet P β a

/-- An action that hands Raft only commands of the kind `P`. -/
def Issues (P : Command → Prop) : ∀ β : Type, Act β → Prop
  | _, .raftApply cmd => P cmd
  | _, _ => True

variable {β : Type} {P : Command → Prop} {a : Act β}

lemma Issues.of_command (ha : Issues P β a) {cmd : Command} (hcmd : cmd ∈ a.command) : P cmd := by
  cases a with
  | raftApply cmd' =>
    obtain rfl : cmd' = cmd := Option.some.inj hcmd
    exact ha
  | _ => cases hcmd

lemma Issues.mono {P' : Command → Prop} (ha : Issues P β a) (hP : ∀ cmd, P cmd → P' cmd) :
    Issues P' β a := by
  cases a with
  | raftApply cmd => exact hP cmd ha
  | _ => trivial

namespace Store

def errNotLeader : String := "not leader"

def applyFailed (cause : String) : String := "failed to apply command: " ++ cause

/-- `raft.Apply` and its error. -/
def raftApply (cmd : Command) : Program Act (Option String) := do
  match ← perform (.raftApply cmd) with
  | some cause => pure (some (applyFailed cause))
  | none => pure none

/-- Only on the leader: hand a command to Raft. -/
def propose (cmd : Command) : Program Act (Option String) := do
  if ← perform .isLeader then raftApply cmd else pure (some errNotLeader)

/-- `Store.Apply`, of an encoded command. -/
def apply (cmd : Command) : Program Act (Option String) := propose cmd

def createSlot (slot : SlotData) : Program Act (Option String) :=
  propose { type := .createSlot, slot := some slot }

def deleteSlot (key : ℤ) : Program Act (Option String) :=
  propose { type := .deleteSlot, id := printKey key }

def unarchiveSlot (key : ℤ) : Program Act (Option String) :=
  propose { type := .unarchiveSlot, id := printKey key }

def updateMemoryUsage (delta : ℤ) : Program Act (Option String) :=
  propose { type := .updateMemoryUsage, memoryDelta := delta }

def updateJobCount (delta : ℤ) : Program Act (Option String) :=
  propose { type := .updateJobCount, jobCountDelta := delta }

/-- `GetSlot`: commands may be applied between the look into the maps and the read of the cold
store. -/
def getSlot (key : ℤ) : Program Act (Option SlotData) := do
  match ← perform (.lookupSlot key) with
  | (some slotData, _) => pure (some slotData)
  | (none, isCold) => if isCold then perform (.getColdSlot key) else pure none

def archiveSlot (key : ℤ) : Program Act (Option String) := do
  if ← perform .isLeader then
    match ← getSlot key with
    | none => pure (some ("slot " ++ printKey key ++ ": slot not found"))
    | some slotData => raftApply { type := .archiveSlot, coldSlot := some slotData }
  else pure (some errNotLeader)

/-- `if store.IsLeader() { … }` around a write whose error is only logged. -/
def ifLeader (write : Program Act (Option String)) : Program Act Unit := do
  if ← perform .isLeader then write >>= fun _ => pure () else pure ()

/-- Call the event handler, if the node still leads. -/
def notify (handler : JobEventHandler) (event : JobEvent) (job : Option Job) :
    Program Act Unit := do
  if ← perform .isLeader then handler event job else pure ()

def createJob (handler : JobEventHandler) (job : Job) : Program Act (Option String) := do
  match ← propose { type := .createJob, job := some job } with
  | some err => pure (some err)
  | none => do
      notify handler .created (some job)
      pure none

def deleteJob (handler : JobEventHandler) (id : String) : Program Act (Option String) := do
  if ← perform .isLeader then do
    let job ← perform (.getJob id)
    match ← raftApply { type := .deleteJob, id := id } with
    | some err => pure (some err)
    | none => do
        notify handler .deleted job
        pure none
  else pure (some errNotLeader)

/-! ## What the methods do at all -/

section Quiet

variable {P P' : Command → Prop} {α β : Type} {p : Program Act α} {a : Act β} {cmd : Command}
  {handler : JobEventHandler}

lemma quiet_mono (h : All (Quiet P) p) (hP : ∀ cmd, P cmd → P' cmd) : All (Quiet P') p := by
  refine h.mono fun a ha => ?_
  cases a with
  | raftApply cmd => exact hP cmd ha
  | executeWebhook job => exact ha
  | getMemoryUsage => exact ha
  | getJobCount => exact ha
  | _ => trivial

lemma Detached.quiet (ha : Detached P β a) : Quiet P β a := by
  cases a with
  | queue f => exact ha.elim
  | _ => exact ha

lemma quiet_of_detached (h : All (Detached P) p) : All (Quiet P) p :=
  h.mono fun _ ha => Detached.quiet ha

lemma Issues.of_quiet (ha : Quiet P β a) : Issues P β a := by
  cases a with
  | raftApply cmd => exact ha
  | _ => trivial

lemma issues_of_quiet (h : All (Quiet P) p) (hP : ∀ cmd, P cmd → P' cmd) : All (Issues P') p :=
  (quiet_mono h hP).mono fun _ ha => Issues.of_quiet ha

lemma detached_raftApply (h : P cmd) : All (Detached P) (raftApply cmd) := by
  refine ⟨h, fun r => ?_⟩
  cases r with
  | none => trivial
  | some cause => trivial

lemma detached_propose (h : P cmd) : All (Detached P) (propose cmd) := by
  simp only [propose, perform_bind, all_step, all_ite]
  exact ⟨trivial, fun _ => ⟨fun _ => detached_raftApply h, fun _ => trivial⟩⟩

lemma all_propose (h : P cmd) : All (Quiet P) (propose cmd) :=
  quiet_of_detached (detached_propose h)

lemma all_ifLeader {write : Program Act (Option String)} (h : All (Quiet P) write) :
    All (Quiet P) (ifLeader write) := by
  simp only [ifLeader, perform_bind, all_step, all_ite]
  exact ⟨trivial, fun _ => ⟨fun _ => h.bind fun _ => trivial, fun _ => trivial⟩⟩

lemma all_notify (hh : ∀ ev j, All (Quiet P) (handler ev j)) (event : JobEvent) (job : Option Job) :
    All (Quiet P) (notify handler event job) := by
  simp only [notify, perform_bind, all_step, all_ite]
  exact ⟨trivial, fun _ => ⟨fun _ => hh event job, fun _ => trivial⟩⟩

lemma all_createJob (hh : ∀ ev j, All (Quiet P) (handler ev j)) {job : Job}
    (h : P { type := .createJob, job := some job }) : All (Quiet P) (createJob handler job) := by
  refine (all_propose h).bind fun r => ?_
  cases r with
  | none => exact (all_notify hh _ _).bind fun _ => trivial
  | some err => trivial

lemma all_deleteJob (hh : ∀ ev j, All (Quiet P) (handler ev j)) {id : String}
    (h : P { type := .deleteJob, id := id }) : All (Quiet P) (deleteJob handler id) := by
  simp only [deleteJob, perform_bind, all_step, all_ite]
  refine ⟨trivial, fun _ => ⟨fun _ => ⟨trivial, fun job => ?_⟩, fun _ => trivial⟩⟩
  refine (quiet_of_detached (detached_raftApply h)).bind fun r => ?_
  cases r with
  | none => exact (all_notify hh _ _).bind fun _ => trivial
  | some err => trivial

end Quiet

variable {cmd : Command} {guard : ∀ β : Type, Act β → Env → Node → Prop}
  {Q : Option String → Node → Prop} {thread : ℕ} {n : Node} {key : ℤ} {ok : Env → Prop}
  {I : FSM → Prop} {α : Type} {p : Program Act α}

/-- What is handed to Raft on a stable leader gets applied. -/
lemma wpWith_raftApply
    (hstable : ∀ {β : Type} (a : Act β) (e : Env) (n : Node), guard β a e n → e.Stable)
    (h : ∀ e, guard _ (.raftApply cmd) e n → Q none (n.applyCommand thread e.faults cmd)) :
    wpWith (demonic (handle thread) guard) (raftApply cmd) Q n := by
  simp only [raftApply, perform_bind, wpWith_step]
  intro e he
  simpa [handle, (hstable _ e n he).2, Env.applies] using h e he

/-- A write on a stable leader succeeds. -/
lemma wpWith_propose
    (hstable : ∀ {β : Type} (a : Act β) (e : Env) (n : Node), guard β a e n → e.Stable)
    (h : ∀ e, guard _ (.raftApply cmd) e n → Q none (n.applyCommand thread e.faults cmd)) :
    wpWith (demonic (handle thread) guard) (propose cmd) Q n := by
  simp only [propose, perform_bind, wpWith_step]
  intro e he
  exact wpWith_ite.mpr
    ⟨fun _ => wpWith_raftApply hstable h, fun hno => absurd (hstable _ e n he).1 hno⟩

lemma wpWith_ifLeader
    (hstable : ∀ {β : Type} (a : Act β) (e : Env) (n : Node), guard β a e n → e.Stable)
    {write : Program Act (Option String)} {Q : Unit → Node → Prop}
    (h : wpWith (demonic (handle thread) guard) write (fun _ => Q ()) n) :
    wpWith (demonic (handle thread) guard) (ifLeader write) Q n := by
  simp only [ifLeader, perform_bind, wpWith_step]
  intro e he
  exact wpWith_ite.mpr ⟨fun _ => wpWith_bind.mpr h, fun hno => absurd (hstable _ e n he).1 hno⟩

/-- A deletion on a stable leader succeeds, and the handler gets the job that was there. -/
lemma wpWith_deleteJob
    (hstable : ∀ {β : Type} (a : Act β) (e : Env) (n : Node), guard β a e n → e.Stable)
    {handler : JobEventHandler} {id : String}
    (h : ∀ e, guard _ (.raftApply { type := .deleteJob, id := id }) e n →
      wpWith (demonic (handle thread) guard) (notify handler .deleted (n.fsm.getJob id))
        (fun _ => Q none) (n.applyCommand thread e.faults { type := .deleteJob, id := id })) :
    wpWith (demonic (handle thread) guard) (deleteJob handler id) Q n := by
  simp only [deleteJob, perform_bind, wpWith_step]
  intro e he
  refine wpWith_ite.mpr ⟨fun _ e' _ => ?_, fun hno => absurd (hstable _ e n he).1 hno⟩
  exact wpWith_bind.mpr (wpWith_raftApply hstable fun e he => wpWith_bind.mpr (h e he))

lemma getSlot_eq (key : ℤ) :
    getSlot key = step (.lookupSlot key) fun seen =>
      if seen.1 = none ∧ seen.2 = true then perform (.getColdSlot key) else pure seen.1 := by
  refine congrArg (step _) (funext fun seen => ?_)
  obtain ⟨_ | slotData, _ | _⟩ := seen <;> rfl

lemma all_getSlot {P : ∀ β : Type, Act β → Prop} (hlook : P _ (.lookupSlot key))
    (hread : P _ (.getColdSlot key)) : All P (getSlot key) := by
  rw [getSlot_eq]
  exact ⟨hlook, fun _ => all_ite.mpr ⟨fun _ => ⟨hread, fun _ => trivial⟩, fun _ => trivial⟩⟩

/-- If nobody comes between, `GetSlot` is one read, though in one or two steps. -/
lemma wpWith_getSlot {T : Transformer Act Node}
    (hT : ∀ {β : Type} (a : Act β) (Q : β → Node → Prop),
      (∀ e, ok e → Q (handle thread β a e n).2 (handle thread β a e n).1) → T β a Q n)
    {Q : Option SlotData → Node → Prop}
    (h : ∀ e, ok e → Q (n.fsm.getSlot key e.faults.get.isSome) n) : wpWith T (getSlot key) Q n := by
  rw [getSlot_eq, wpWith_step]
  refine hT _ _ fun e he => wpWith_ite.mpr ⟨fun hcold => hT _ _ fun e' he' => ?_, fun hno => ?_⟩
  · have hread := h e' he'
    rwa [FSM.getSlot_of_cold hcold] at hread
  · have hread := h e he
    rwa [FSM.getSlot_of_not_cold hno] at hread

lemma wp_getSlot {Q : Option SlotData → Node → Prop}
    (h : ∀ e, ok e → Q (n.fsm.getSlot key e.faults.get.isSome) n) :
    wp (handle thread) ok (getSlot key) Q n :=
  wpWith_getSlot (fun _ _ h => h) h

/-- A write may go wrong in every way; either it is applied or it is not. -/
lemma wp_raftApply (hskip : ∀ r, Q r n)
    (happly : ∀ r faults, Q r (n.applyCommand thread faults cmd)) :
    wp (handle thread) ok (raftApply cmd) Q n := by
  simp only [raftApply, perform_bind, wp_step]
  intro e _
  rcases handle_raftApply thread cmd e n with ⟨message, hsame⟩ | ⟨r, happlied⟩
  · rw [hsame]
    exact hskip _
  · rw [happlied]
    cases r with
    | none => exact happly _ _
    | some message => exact happly _ _

lemma wp_propose (hskip : ∀ r, Q r n)
    (happly : ∀ r faults, Q r (n.applyCommand thread faults cmd)) :
    wp (handle thread) ok (propose cmd) Q n := by
  simp only [propose, perform_bind, wp_step, wp_ite]
  exact fun e _ => ⟨fun _ => wp_raftApply hskip happly, fun _ => hskip _⟩

/-- What the commands of a program keep, the program keeps. -/
lemma wpWith_issues {P : Command → Prop}
    (hI : ∀ f faults cmd, P cmd → I f → I (f.apply faults cmd).1) (hp : All (Issues P) p)
    (hn : I n.fsm) : wpWith (demonic (handle thread) guard) p (fun _ n' => I n'.fsm) n :=
  hp.invariant (fun _ e n' ha _ hn' => handle_keeps thread hn' fun cmd hcmd =>
    hI n'.fsm e.faults cmd (ha.of_command hcmd) hn') hn

/-- What every command keeps, every program keeps. -/
lemma run_invariant (hI : ∀ f faults cmd, I f → I (f.apply faults cmd).1) (thread : ℕ)
    (p : Program Act α) (env : ℕ → Env) (hn : I n.fsm) : I (run (handle thread) p env n).1.fsm := by
  have hkeeps : wp (handle thread) (fun _ => True) p (fun _ n' => I n'.fsm) n :=
    all_true.invariant (fun _ e n' _ _ hn' => handle_keeps thread hn' fun cmd _ =>
      hI n'.fsm e.faults cmd hn') hn
  exact wp_run hkeeps fun _ => trivial

/-- A program of such commands leaves jobs and counters alone. -/
lemma wpWith_leavesJobs (hp : All (Issues Command.LeavesJobs) p) (n : Node) :
    wpWith (demonic (handle thread) guard) p (fun _ n' => n.fsm.SameJobs n'.fsm) n :=
  wpWith_issues (fun f faults _ hcmd hf => hf.trans (FSM.sameJobs_apply hcmd f faults)) hp
    (FSM.SameJobs.refl n.fsm)

lemma wpWith_quiet (hp : All (Quiet Command.LeavesJobs) p) (n : Node) :
    wpWith (demonic (handle thread) guard) p (fun _ n' => n.fsm.SameJobs n'.fsm) n :=
  wpWith_leavesJobs (issues_of_quiet hp fun _ h => h) n

end Store

end ScheduledDb
