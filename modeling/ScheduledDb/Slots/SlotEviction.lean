import ScheduledDb.Core.Run
import ScheduledDb.Slots.PersistentSlots
import ScheduledDb.Store.ColdSlots

/-!
# The slot evictor beside the queue

`internal/slots/slot_eviction.go` as programs.  A pass of the evictor archives the slots that are
long past and brings back those that are near.  It shares no lock with the queue: both read a whole
slot and write a whole slot, so that an archive command may carry a slot that has been extended since
it was read, and an unarchive command may put an old copy over a newer slot (`lost_by_archive`).

The queue's calls run one after the other as thread `0`, evictors beside them.  As long as no
evictor's command changes what `GetSlot` shows (`Undisturbed`), the queue may be verified as if it
were alone, by what it sees (`Node.queueView`): `no_lost_slot_update` says that the slots list
exactly the jobs that were added and not removed, each under its own key.
-/

namespace ScheduledDb

open Machine Program Config Function Store PersistentSlotQueue

def defaultHotWindow : Duration := 172800000000000

structure SlotEvictor where
  hotWindow : Duration
  /-- There is a wheel, which is the queue's. -/
  wheel : Bool

/-- `NewSlotEvictorWithWheel`, without the check interval. -/
def newSlotEvictorWithWheel (hotWindow : Duration) (wheel : Bool) : SlotEvictor where
  hotWindow := if hotWindow = 0 then defaultHotWindow else hotWindow
  wheel := wheel

namespace SlotEvictor

/-- One slot of the first loop: archive it if it is long past. -/
def evictSlot (se : SlotEvictor) (hotThreshold : ℤ) (slot : Σ _ : ℤ, SlotData) :
    Program Act Unit := do
  if slot.2.maxTime < hotThreshold then
    match ← Store.archiveSlot slot.1 with
    | some _ => pure ()
    | none => if se.wheel = true then PersistentSlotQueue.wheelRemove slot.1 else pure ()
  else pure ()

/-- One key of the second loop: bring the slot back if it is near. -/
def promoteSlot (se : SlotEvictor) (hotThreshold hotWindowSeconds key : ℤ) : Program Act Unit := do
  match ← Store.getSlot key with
  | none => pure ()
  | some slotData =>
    if slotData.minTime ≥ hotThreshold
        ∧ slotData.maxTime < wrap64 (hotThreshold + wrap64 (hotWindowSeconds * 2)) then
      match ← Store.unarchiveSlot key with
      | some _ => pure ()
      | none => if se.wheel = true then PersistentSlotQueue.wheelAdd key else pure ()
    else pure ()

def evict (se : SlotEvictor) : Program Act Unit := do
  if ← perform .isLeader then do
    let now ← perform .now
    let hotWindowSeconds := seconds se.hotWindow
    let hotThreshold := wrap64 (now - hotWindowSeconds)
    let hotSlots ← perform .getAllSlots
    forEach hotSlots (se.evictSlot hotThreshold)
    let coldKeys ← perform .getColdSlotKeys
    forEach coldKeys (se.promoteSlot hotThreshold hotWindowSeconds)
  else pure ()

/-! ## What an evictor does at all -/

/-- An action that hands Raft only archive and unarchive commands, and of the queue's data changes
at most the wheel. -/
def Moves : ∀ β : Type, Act β → Prop
  | _, .raftApply cmd => cmd.type = .archiveSlot ∨ cmd.type = .unarchiveSlot
  | _, .queue f => ∀ q, (f q).1.slotGap = q.slotGap ∧ (f q).1.jobToSlot = q.jobToSlot
  | _, _ => True

lemma moves_onWheel {β : Type} {c : Prop} [Decidable c]
    (f : HierarchicalTimingWheel → HierarchicalTimingWheel × β) {p : Program Act β}
    (hp : All Moves p) : All Moves (if c then onWheel f else p) :=
  all_ite.mpr ⟨fun _ => ⟨fun _ => ⟨rfl, rfl⟩, fun _ => trivial⟩, fun _ => hp⟩

lemma moves_raftApply {cmd : Command} (h : cmd.type = .archiveSlot ∨ cmd.type = .unarchiveSlot) :
    All Moves (raftApply cmd) := by
  refine ⟨h, fun r => ?_⟩
  cases r with
  | none => trivial
  | some cause => trivial

lemma moves_evictSlot (se : SlotEvictor) (hotThreshold : ℤ) (slot : Σ _ : ℤ, SlotData) :
    All Moves (se.evictSlot hotThreshold slot) := by
  have harchive : All Moves (archiveSlot slot.1) := by
    simp only [archiveSlot, perform_bind, all_step, all_ite]
    refine ⟨trivial, fun _ => ⟨fun _ => (all_getSlot trivial trivial).bind fun found => ?_,
      fun _ => trivial⟩⟩
    cases found with
    | none => trivial
    | some slotData => exact moves_raftApply (Or.inl rfl)
  refine all_ite.mpr ⟨fun _ => harchive.bind fun r => ?_, fun _ => trivial⟩
  cases r with
  | none => exact moves_onWheel _ trivial
  | some err => trivial

lemma moves_promoteSlot (se : SlotEvictor) (hotThreshold hotWindowSeconds key : ℤ) :
    All Moves (se.promoteSlot hotThreshold hotWindowSeconds key) := by
  have hunarchive : All Moves (unarchiveSlot key) := by
    simp only [unarchiveSlot, propose, perform_bind, all_step, all_ite]
    exact ⟨trivial, fun _ => ⟨fun _ => moves_raftApply (Or.inr rfl), fun _ => trivial⟩⟩
  refine (all_getSlot trivial trivial).bind fun found => ?_
  cases found with
  | none => trivial
  | some slotData =>
    refine all_ite.mpr ⟨fun _ => hunarchive.bind fun r => ?_, fun _ => trivial⟩
    cases r with
    | none => exact moves_onWheel _ trivial
    | some err => trivial

/-- **An evictor only moves slots.** -/
lemma moves_evict (se : SlotEvictor) : All Moves se.evict := by
  simp only [evict, perform_bind, all_step, all_ite]
  refine ⟨trivial, fun _ => ⟨fun _ => ⟨trivial, fun now => ⟨trivial, fun hotSlots => ?_⟩⟩,
    fun _ => trivial⟩⟩
  refine (all_forEach fun slot _ => se.moves_evictSlot _ slot).bind fun _ => ?_
  exact ⟨trivial, fun coldKeys => all_forEach fun key _ => se.moves_promoteSlot _ _ key⟩

end SlotEvictor

/-! ## Moves that do not show -/

namespace FSM

/-- An archive command carries what `GetSlot` shows; an unarchive command finds a current copy. -/
def MoveCurrent (f : FSM) (cmd : Command) : Prop :=
  (cmd.type = .archiveSlot → ∀ slot ∈ cmd.coldSlot, f.getSlot slot.key false = some slot) ∧
    (cmd.type = .unarchiveSlot → ∀ key ∈ scanKey cmd.id, f.CopyCurrent key)

instance (f : FSM) (cmd : Command) : Decidable (f.MoveCurrent cmd) :=
  inferInstanceAs (Decidable ((_ → ∀ slot ∈ cmd.coldSlot, _) ∧ (_ → ∀ key ∈ scanKey cmd.id, _)))

variable {f : FSM} {cmd : Command}

lemma getSlot_apply_archive (htype : cmd.type = .archiveSlot)
    (h : ∀ slot ∈ cmd.coldSlot, f.getSlot slot.key false = some slot) (faults : ColdFaults)
    (k : ℤ) :
    (f.apply faults cmd).1.getSlot k false = f.getSlot k false := by
  rw [apply_fst]
  simp only [effect, Command.wire, htype]
  split_ifs with hcold
  · cases harg : cmd.coldSlot with
    | none => rfl
    | some slot =>
      show ((Effect.archive slot).act faults f).getSlot k false = _
      rw [getSlot_archive faults k hcold.1]
      split_ifs with hk
      · rw [hk]
        exact (h slot harg).symm
      · rfl
  · rfl

lemma getSlot_apply_unarchive (htype : cmd.type = .unarchiveSlot)
    (h : ∀ key ∈ scanKey cmd.id, f.CopyCurrent key) (faults : ColdFaults) (k : ℤ) :
    (f.apply faults cmd).1.getSlot k false = f.getSlot k false := by
  rw [apply_fst]
  simp only [effect, Command.wire, htype, keyEffect]
  split_ifs with hcold hid
  · rfl
  · cases hscan : scanKey cmd.id with
    | none => rfl
    | some key =>
      show ((Effect.unarchive key).act faults f).getSlot k false = _
      rw [getSlot_unarchive]
      split_ifs with hk
      · subst hk
        exact (f.coldCopy_or_hot_iff k).mpr (h k hscan)
      · rfl
  · rfl

/-- **A move that does not show.** -/
lemma getSlot_of_moveCurrent (h : f.MoveCurrent cmd)
    (htype : cmd.type = .archiveSlot ∨ cmd.type = .unarchiveSlot) (faults : ColdFaults) (k : ℤ) :
    (f.apply faults cmd).1.getSlot k false = f.getSlot k false := by
  rcases htype with htype | htype
  · exact getSlot_apply_archive htype (h.1 htype) faults k
  · exact getSlot_apply_unarchive htype (h.2 htype) faults k

/-- The slot of the key lists the job. -/
def Lists (f : FSM) (key : ℤ) (jobID : String) : Prop :=
  ∃ slot ∈ f.getSlot key false, jobID ∈ slot.jobIDs

instance (f : FSM) (key : ℤ) (jobID : String) : Decidable (f.Lists key jobID) :=
  match hslot : f.getSlot key false with
  | none => isFalse fun ⟨slot, hfound, _⟩ => by rw [hslot] at hfound; cases hfound
  | some slot =>
    decidable_of_iff (jobID ∈ slot.jobIDs)
      ⟨fun h => ⟨slot, hslot, h⟩, fun ⟨found, hfound, h⟩ => by
        rw [hslot] at hfound
        cases hfound
        exact h⟩

end FSM

/-! ## What the queue sees -/

/-- What the queue's calls work with: the slots as `GetSlot` shows them, and the queue's own data
without the wheel. -/
structure QueueView where
  /-- There is a cold store. -/
  spills : Bool
  shown : ℤ → Option SlotData
  slotGap : Duration
  jobToSlot : Finmap fun _ : String => ℤ

/-- What the queue of a node sees. -/
def Node.queueView (n : Node) : QueueView where
  spills := n.fsm.coldStore.isSome
  shown := fun key => n.fsm.getSlot key false
  slotGap := n.queue.slotGap
  jobToSlot := n.queue.jobToSlot

/-- The thread that makes the queue's calls. -/
def queueThread : ℕ := 0

/-- A step that does not disturb the queue: moves do not show, cold copies that are read directly
are current, and a `GetSlot` of the queue that has seen a cold slot finds what is shown when it comes
to read it. -/
def Undisturbed (t : ℕ) : ∀ β : Type, Act β → Env → Node → Prop
  | _, .raftApply cmd, _, n => n.fsm.MoveCurrent cmd
  | _, .getColdSlotData key, _, n => n.fsm.CopyCurrent key
  | _, .getColdSlot key, e, n =>
    t = queueThread → e.faults.get = none ∧ n.fsm.coldCopy key = n.fsm.getSlot key false
  | _, _, _, _ => True

instance instDecidableUndisturbed (t : ℕ) :
    ∀ (β : Type) (a : Act β) (e : Env) (n : Node), Decidable (Undisturbed t β a e n)
  | _, .raftApply cmd, _, n => inferInstanceAs (Decidable (n.fsm.MoveCurrent cmd))
  | _, .getColdSlotData key, _, n => inferInstanceAs (Decidable (n.fsm.CopyCurrent key))
  | _, .getColdSlot _, e, _ => inferInstanceAs (Decidable (t = queueThread → e.faults.get = none ∧ _))
  | _, .lookupSlot _, _, _ => isTrue trivial
  | _, .now, _, _ => isTrue trivial
  | _, .isLeader, _, _ => isTrue trivial
  | _, .newUUID, _, _ => isTrue trivial
  | _, .getJob _, _, _ => isTrue trivial
  | _, .getAllSlots, _, _ => isTrue trivial
  | _, .getExecutionState _, _, _ => isTrue trivial
  | _, .getAllExecutionStates, _, _ => isTrue trivial
  | _, .getMemoryUsage, _, _ => isTrue trivial
  | _, .getJobCount, _, _ => isTrue trivial
  | _, .isColdSpillingEnabled, _, _ => isTrue trivial
  | _, .getColdSlotKeys, _, _ => isTrue trivial
  | _, .queue _, _, _ => isTrue trivial
  | _, .executeWebhook _, _, _ => isTrue trivial
  | _, .statusChanged _ _, _, _ => isTrue trivial

/-- On a stable leader. -/
def UndisturbedLeader (t : ℕ) (β : Type) (a : Act β) (e : Env) (n : Node) : Prop :=
  e.Stable ∧ Undisturbed t β a e n

/-- An evictor that does not disturb the queue does nothing that the queue sees. -/
lemma queueView_of_moves {t : ℕ} {β : Type} {a : Act β} {e : Env} {n : Node}
    (h : Undisturbed t β a e n) (ha : SlotEvictor.Moves β a) :
    (handle t β a e n).1.queueView = n.queueView := by
  cases a with
  | raftApply cmd =>
    simp only [handle]
    split_ifs
    · simp only [Node.queueView, Node.applyCommand_fsm, Node.applyCommand_queue,
        FSM.getSlot_of_moveCurrent h ha, FSM.isSome_coldStore_apply]
    · rfl
  | queue f => simp only [handle, Node.queueView, (ha n.queue).1, (ha n.queue).2]
  | _ => rfl

/-- Without a cold store, a cold slot is read only where nothing is shown. -/
def LooksFirst : ∀ β : Type, Act β → QueueView → Prop
  | _, .getColdSlot key, v => v.spills = false → v.shown key = none
  | _, _, _ => True

/-- Actions of the queue's thread. -/
def minds : Transformer Act QueueView :=
  watching (fun _ => True)
    (seen Node.queueView LooksFirst (UndisturbedLeader queueThread) (handle queueThread))

lemma minds_mono : minds.Mono := watching_mono seen_mono

section Minds

variable {v : QueueView} {β : Type} {a : Act β} {key : ℤ} {Q : Unit → QueueView → Prop}

lemma minds_of_forall {Q : β → QueueView → Prop} (hfirst : LooksFirst β a v)
    (h : ∀ n e, n.queueView = v → e.Stable → Undisturbed queueThread β a e n →
      Q (handle queueThread β a e n).2 (handle queueThread β a e n).1.queueView) :
    minds β a Q v :=
  ⟨trivial, hfirst, fun n e hn hg => h n e hn hg.1 hg.2⟩

lemma minds_isLeader {Q : Bool → QueueView → Prop} (hQ : Q true v) : minds _ .isLeader Q v := by
  refine minds_of_forall trivial ?_
  rintro n e rfl hstable _
  simpa only [handle, hstable.1] using hQ

/-- `GetSlot` finds what is shown, though slots may move between its two steps. -/
lemma minds_getSlot {Q : Option SlotData → QueueView → Prop} (hQ : Q (v.shown key) v) :
    wpWith minds (getSlot key) Q v := by
  rw [getSlot_eq]
  refine minds_of_forall trivial ?_
  rintro n e rfl _ _
  refine wpWith_ite.mpr ⟨fun hseen => minds_of_forall (fun hspills => ?_) ?_, fun hno => ?_⟩
  · have hnone : n.fsm.coldStore = none :=
      Option.not_isSome_iff_eq_none.mp (Bool.eq_false_iff.mp hspills)
    refine (FSM.getSlot_of_cold hseen false).trans ?_
    simp [FSM.coldCopy, hnone]
  · intro n' e' hn' _ hread
    obtain ⟨hget, hcopy⟩ := hread rfl
    have hanswer : (handle queueThread _ (.getColdSlot key) e' n').2 = n'.queueView.shown key := by
      rw [← show n'.fsm.coldCopy key = n'.queueView.shown key from hcopy]
      simp [handle, hget]
    rw [hanswer, hn']
    exact hn' ▸ hQ
  · exact FSM.getSlot_of_not_cold hno false ▸ hQ

/-- Slots in memory are shown. -/
lemma minds_getAllSlots {Q : List (Σ _ : ℤ, SlotData) → QueueView → Prop}
    (hQ : ∀ slots, (∀ slot ∈ slots, v.shown slot.1 = some slot.2) → Q slots v) :
    minds _ .getAllSlots Q v := by
  refine minds_of_forall trivial ?_
  rintro n e rfl _ _
  show Q (e.order _ n.fsm.slots.sortedEntries) n.queueView
  refine hQ _ ?_
  rintro ⟨key, slotData⟩ hmem
  rw [(e.order_perm _ _).mem_iff, Finmap.mem_sortedEntries] at hmem
  show n.fsm.getSlot key false = some slotData
  rw [FSM.getSlot_eq, hmem, Option.some_or]

/-- So are cold copies, by the condition. -/
lemma minds_getColdSlotData {Q : Option (Option SlotData) → QueueView → Prop}
    (hQ : ∀ r, (∀ slot, r = some (some slot) → v.shown key = some slot) → Q r v) :
    minds _ (.getColdSlotData key) Q v := by
  refine minds_of_forall trivial ?_
  rintro n e rfl _ hcurrent
  show Q (if e.faults.get.isSome then none else n.fsm.coldStore.map fun c => c.lookup key)
    n.queueView
  refine hQ _ fun slot hr => hcurrent slot ?_
  split_ifs at hr
  obtain ⟨c, hc, hslot⟩ := Option.map_eq_some_iff.mp hr
  rw [FSM.coldCopy, hc]
  exact hslot

/-- Actions that neither write nor read what the queue sees. -/
lemma minds_other (ha : SlotEvictor.Moves β a) (hfirst : LooksFirst β a v)
    {Q : β → QueueView → Prop} (hQ : ∀ b, Q b v) : minds β a Q v := by
  refine minds_of_forall hfirst fun n e hn _ hundisturbed => ?_
  rw [queueView_of_moves hundisturbed ha, hn]
  exact hQ _

lemma wpWith_onWheel {f : HierarchicalTimingWheel → HierarchicalTimingWheel × β}
    {Q : β → QueueView → Prop} (hQ : ∀ b, Q b v) : wpWith minds (onWheel f) Q v := by
  refine minds_of_forall trivial ?_
  rintro n e rfl _ _
  exact hQ _

lemma wpWith_slotGapSeconds {Q : ℤ → QueueView → Prop} (hQ : Q (seconds v.slotGap) v) :
    wpWith minds slotGapSeconds Q v := by
  refine minds_of_forall trivial ?_
  rintro n e rfl _ _
  exact hQ

lemma wpWith_onIndex {f : (Finmap fun _ : String => ℤ) → (Finmap fun _ : String => ℤ) × β}
    {Q : β → QueueView → Prop}
    (hQ : Q (f v.jobToSlot).2 { v with jobToSlot := (f v.jobToSlot).1 }) :
    wpWith minds (onIndex f) Q v := by
  refine minds_of_forall trivial ?_
  rintro n e rfl _ _
  exact hQ

/-- A write of the queue, in terms of what it shows. -/
lemma wpWith_write {cmd : Command} {g : (ℤ → Option SlotData) → ℤ → Option SlotData}
    (hshown : ∀ faults (f : FSM) key,
      (f.apply faults cmd).1.getSlot key false = g (fun k => f.getSlot k false) key)
    (hQ : Q () { v with shown := g v.shown }) : wpWith minds (ifLeader (propose cmd)) Q v := by
  simp only [ifLeader, propose, raftApply, perform_bind, wpWith_bind, wpWith_step,
    wpWith_ite]
  refine minds_isLeader ⟨fun _ => minds_isLeader ⟨fun _ => ?_, fun h => absurd rfl h⟩,
    fun h => absurd rfl h⟩
  refine minds_of_forall trivial ?_
  rintro n e rfl hstable _
  have hview : (n.applyCommand queueThread e.faults cmd).queueView
      = { n.queueView with shown := g n.queueView.shown } := by
    simp only [Node.queueView, Node.applyCommand_fsm, Node.applyCommand_queue, hshown,
      FSM.isSome_coldStore_apply]
  simpa [handle, hstable.2, Env.applies, hview] using hQ

lemma wpWith_createSlot {slot : SlotData}
    (hQ : Q () { v with shown := update v.shown slot.key (some slot) }) :
    wpWith minds (ifLeader (createSlot slot)) Q v := by
  refine wpWith_write (g := fun s => update s slot.key (some slot))
    (fun faults f key => ?_) hQ
  rw [FSM.effect_createSlot, FSM.getSlot_putSlot, update_apply]

lemma wpWith_deleteSlot (hkey : InRange key)
    (hQ : Q () { v with shown := update v.shown key none }) :
    wpWith minds (ifLeader (deleteSlot key)) Q v := by
  refine wpWith_write (g := fun s => update s key none) (fun faults f k => ?_) hQ
  rw [FSM.effect_deleteSlot faults f hkey, FSM.getSlot_dropSlot, update_apply]

lemma wpWith_ensureInit (hQ : Q () v) : wpWith minds ensureInit Q v := by
  refine wpWith_bind.mpr (wpWith_onWheel fun _ => wpWith_ite.mpr ⟨fun _ => hQ, fun _ => ?_⟩)
  rw [perform_bind, wpWith_step]
  exact minds_other (a := .now) trivial trivial fun now => wpWith_onWheel fun _ => hQ

end Minds

/-! ## The queue's calls -/

/-- The jobs of the slot of a key, none if there is no slot. -/
def QueueView.jobsAt (v : QueueView) (key : ℤ) : List String :=
  ((v.shown key).map SlotData.jobIDs).getD []

/-- The shown slots list exactly the jobs of the index, each once and under its own key. -/
structure QueueView.Tracks (v : QueueView) : Prop where
  filed : ∀ {key slot}, v.shown key = some slot → slot.key = key
  nodup : ∀ key, (v.jobsAt key).Nodup
  listed : ∀ key id, id ∈ v.jobsAt key ↔ v.jobToSlot.lookup id = some key
  inRange : ∀ {id key}, v.jobToSlot.lookup id = some key → InRange key

/-- Every slot shown has jobs in it, and begins at its key times the gap. -/
def QueueView.Neat (v : QueueView) : Prop :=
  ∀ {key slot}, v.shown key = some slot →
    slot.jobIDs ≠ [] ∧ slot.minTime = key * seconds v.slotGap

/-- A call of the queue. -/
inductive QueueCall where
  | addJob (job : Job)
  | removeJob (jobID : String)

namespace QueueCall

def program : QueueCall → Program Act Unit
  | addJob job => PersistentSlotQueue.addJob job
  | removeJob jobID => PersistentSlotQueue.removeJob jobID

/-- Which job should be in which slot after the call. -/
def onPlan (gap : ℤ) (plan : Finmap fun _ : String => ℤ) : QueueCall → Finmap fun _ : String => ℤ
  | addJob job =>
    (job.dueTime.map fun timestamp => plan.insert job.id (timestamp.tdiv gap)).getD plan
  | removeJob jobID => plan.erase jobID

/-- No job is added that is in a slot already. -/
def Fresh (plan : Finmap fun _ : String => ℤ) : QueueCall → Prop
  | addJob job => plan.lookup job.id = none
  | removeJob _ => True

instance (plan : Finmap fun _ : String => ℤ) : ∀ call : QueueCall, Decidable (call.Fresh plan)
  | addJob job => inferInstanceAs (Decidable (plan.lookup job.id = none))
  | removeJob _ => isTrue trivial

/-- Due times are 64-bit numbers. -/
def DueInRange : QueueCall → Prop
  | addJob job => ∀ timestamp ∈ job.dueTime, InRange timestamp
  | removeJob _ => True

instance : ∀ call : QueueCall, Decidable call.DueInRange
  | addJob job => inferInstanceAs (Decidable (∀ timestamp ∈ job.dueTime, InRange timestamp))
  | removeJob _ => isTrue trivial

end QueueCall

namespace QueueView

variable {v : QueueView} {key : ℤ} {id : String}

lemma jobsAt_of_shown {slot : SlotData} (h : v.shown key = some slot) :
    v.jobsAt key = slot.jobIDs := by
  simp [jobsAt, h]

/-- The view with another slot under a key, or none, and with another index. -/
def write (v : QueueView) (key : ℤ) (slot : Option SlotData)
    (index : Finmap fun _ : String => ℤ) : QueueView :=
  { v with shown := Function.update v.shown key slot, jobToSlot := index }

lemma jobsAt_write (key k : ℤ) (slot : Option SlotData) (index : Finmap fun _ : String => ℤ) :
    (v.write key slot index).jobsAt k
      = if k = key then (slot.map SlotData.jobIDs).getD [] else v.jobsAt k := by
  simp only [jobsAt, write, update_apply]
  split_ifs
  · rfl
  · rfl

lemma Neat.write (h : v.Neat) {slot : Option SlotData} {index : Finmap fun _ : String => ℤ}
    (hslot : ∀ s, slot = some s → s.jobIDs ≠ [] ∧ s.minTime = key * seconds v.slotGap) :
    (v.write key slot index).Neat := by
  intro key' slot' hslot'
  simp only [QueueView.write, update_apply] at hslot'
  split_ifs at hslot' with hk
  · rw [hk]
    exact hslot slot' hslot'
  · exact h hslot'

/-- A slot with one more job. -/
lemma Tracks.insert (h : v.Tracks) (slot : SlotData) (hkey : slot.key = key) (hrange : InRange key)
    (hid : v.jobToSlot.lookup id = none) (hjobs : slot.jobIDs = v.jobsAt key ++ [id]) :
    (v.write key (some slot) (v.jobToSlot.insert id key)).Tracks := by
  have hnew : ∀ key', id ∉ v.jobsAt key' := by
    intro key'
    rw [h.listed, hid]
    simp
  constructor
  · intro key' slot' hslot'
    simp only [write, update_apply] at hslot'
    split_ifs at hslot' with hk
    · rw [hk, ← Option.some.inj hslot', hkey]
    · exact h.filed hslot'
  · intro key'
    rw [jobsAt_write]
    split_ifs
    · show slot.jobIDs.Nodup
      rw [hjobs]
      exact (h.nodup key).append (List.nodup_singleton id) (List.disjoint_singleton.mpr (hnew key))
    · exact h.nodup key'
  · intro key' id'
    rw [jobsAt_write]
    simp only [write, Finmap.lookup_insert_ite]
    split_ifs with hk hi hi
    · simp [hjobs, hi, hk]
    · simp [hjobs, hi, hk, h.listed]
    · subst hi
      simpa [Ne.symm hk] using hnew key'
    · exact h.listed key' id'
  · intro id' key' hlookup
    simp only [write, Finmap.lookup_insert_ite] at hlookup
    split_ifs at hlookup
    · rwa [← Option.some.inj hlookup]
    · exact h.inRange hlookup

/-- A slot with one job less; an empty one may go. -/
lemma Tracks.erase (h : v.Tracks) (rest : Option SlotData) (hid : v.jobToSlot.lookup id = some key)
    (hkey : ∀ slot, rest = some slot → slot.key = key)
    (hjobs : (rest.map SlotData.jobIDs).getD [] = (v.jobsAt key).erase id) :
    (v.write key rest (v.jobToSlot.erase id)).Tracks := by
  constructor
  · intro key' slot' hslot'
    simp only [write, update_apply] at hslot'
    split_ifs at hslot' with hk
    · rw [hk]
      exact hkey slot' hslot'
    · exact h.filed hslot'
  · intro key'
    rw [jobsAt_write]
    split_ifs
    · rw [hjobs]
      exact (h.nodup key).erase id
    · exact h.nodup key'
  · intro key' id'
    rw [jobsAt_write]
    simp only [write, Finmap.lookup_erase_ite]
    split_ifs with hk hi hi
    · rw [hjobs, (h.nodup key).mem_erase_iff]
      simp [hi]
    · rw [hjobs, (h.nodup key).mem_erase_iff, h.listed, hk]
      simp [hi]
    · rw [h.listed, hi, hid]
      simpa using Ne.symm hk
    · exact h.listed key' id'
  · intro id' key' hlookup
    simp only [write, Finmap.lookup_erase_ite] at hlookup
    split_ifs at hlookup
    exact h.inRange hlookup

end QueueView

/-! ### Each call does to the slots what it does to the plan -/

namespace QueueCall

open PersistentSlotQueue

variable {v : QueueView} {id : String} {Q : Unit → QueueView → Prop}

/-- What a call achieves: the slots are in order, and the index is as planned. -/
def Achieves (v : QueueView) (plan : Finmap fun _ : String => ℤ) (v' : QueueView) : Prop :=
  v'.Tracks ∧ v'.jobToSlot = plan ∧ v'.slotGap = v.slotGap

/-- What is more, the slots stay neat. -/
def Keeps (v : QueueView) (plan : Finmap fun _ : String => ℤ) (v' : QueueView) : Prop :=
  Achieves v plan v' ∧ (v.Neat → v'.Neat)

lemma wpWith_addJob (h : v.Tracks) (hgap : 0 < seconds v.slotGap) {job : Job}
    (hrange : ∀ timestamp ∈ job.dueTime, InRange timestamp)
    (hfresh : v.jobToSlot.lookup job.id = none) :
    wpWith minds (PersistentSlotQueue.addJob job)
      (fun _ => Keeps v ((addJob job).onPlan (seconds v.slotGap) v.jobToSlot)) v := by
  unfold PersistentSlotQueue.addJob
  cases hdue : job.dueTime with
  | none => exact ⟨⟨h, by simp [onPlan, hdue], rfl⟩, fun hneat => hneat⟩
  | some timestamp =>
    have hkey : InRange (timestamp.tdiv (seconds v.slotGap)) :=
      (hrange timestamp hdue).tdiv hgap
    have hplan : (addJob job).onPlan (seconds v.slotGap) v.jobToSlot
        = v.jobToSlot.insert job.id (timestamp.tdiv (seconds v.slotGap)) := by
      simp [onPlan, hdue]
    simp only [wpWith_bind]
    refine wpWith_slotGapSeconds (wpWith_ensureInit (minds_getSlot ?_))
    refine wpWith_createSlot (wpWith_onIndex (wpWith_onWheel fun _ => ?_))
    rw [hplan]
    cases hold : v.shown (timestamp.tdiv (seconds v.slotGap)) with
    | none =>
      refine ⟨⟨h.insert (newSlotData _ (seconds v.slotGap) job.id) rfl hkey hfresh ?_, rfl, rfl⟩,
        fun hneat => hneat.write ?_⟩
      · simp [newSlotData, QueueView.jobsAt, hold]
      · rintro _ ⟨⟩
        exact ⟨by simp [newSlotData], wrap64_of_mem ((hrange timestamp hdue).tdiv_mul hgap)⟩
    | some old =>
      have hfiled : old.key = timestamp.tdiv (seconds v.slotGap) := h.filed hold
      simp only [hfiled]
      refine ⟨⟨h.insert _ rfl hkey hfresh ?_, rfl, rfl⟩, fun hneat => hneat.write ?_⟩
      · rw [QueueView.jobsAt_of_shown hold]
      · rintro _ ⟨⟩
        exact ⟨by simp, (hneat hold).2⟩

lemma wpWith_shrinkSlot (h : v.Tracks) {key : ℤ} {slot : SlotData}
    (hid : v.jobToSlot.lookup id = some key) (hslot : v.shown key = some slot) :
    wpWith minds (shrinkSlot key (without slot id))
      (fun _ => Keeps v (v.jobToSlot.erase id))
      { v with jobToSlot := v.jobToSlot.erase id } := by
  have hjobs : (without slot id).jobIDs = (v.jobsAt key).erase id := by
    rw [QueueView.jobsAt_of_shown hslot]
    rfl
  refine wpWith_ite.mpr ⟨fun hempty => ?_, fun hrest => ?_⟩
  · refine wpWith_bind.mpr (wpWith_deleteSlot (h.inRange hid) (wpWith_onWheel fun _ => ?_))
    exact ⟨⟨h.erase none hid (by simp) (by rw [← hjobs, hempty]; rfl), rfl, rfl⟩,
      fun hneat => hneat.write (by simp)⟩
  · have hfiled : slot.key = key := h.filed hslot
    refine wpWith_createSlot ?_
    rw [show (without slot id).key = key from hfiled]
    refine ⟨⟨h.erase (some (without slot id)) hid (fun _ hs => Option.some.inj hs ▸ hfiled)
      hjobs, rfl,
      rfl⟩, fun hneat => hneat.write ?_⟩
    rintro _ ⟨⟩
    exact ⟨hrest, (hneat hslot).2⟩

/-- The search finds nothing for a job that is in no slot. -/
lemma wpWith_removeFromHot (hQ : Q () v) {slots : List (Σ _ : ℤ, SlotData)}
    (hno : ∀ slot ∈ slots, id ∉ slot.2.jobIDs) : wpWith minds (removeFromHot id slots) Q v := by
  induction slots with
  | nil => exact hQ
  | cons slot rest ih =>
    rw [removeFromHot, if_neg (hno slot List.mem_cons_self)]
    exact ih fun slot' hmem => hno slot' (List.mem_cons_of_mem slot hmem)

lemma wpWith_removeFromCold (h : v.Tracks) (hid : v.jobToSlot.lookup id = none)
    {hot : Program Act Unit} (hhot : wpWith minds hot Q v) (keys : List ℤ) :
    wpWith minds (removeFromCold id hot keys) Q v := by
  induction keys with
  | nil => exact hhot
  | cons key rest ih =>
    rw [removeFromCold, perform_bind, wpWith_step]
    refine minds_getColdSlotData fun r hr => ?_
    match r with
    | none => exact ih
    | some none => exact ih
    | some (some slot) =>
      have hno : id ∉ slot.jobIDs := by
        rw [← QueueView.jobsAt_of_shown (hr slot rfl), h.listed, hid]
        simp
      simpa only [if_neg hno] using ih

lemma wpWith_removeJob (h : v.Tracks) (id : String) :
    wpWith minds (PersistentSlotQueue.removeJob id)
      (fun _ => Keeps v ((removeJob id).onPlan (seconds v.slotGap) v.jobToSlot)) v := by
  refine wpWith_bind.mpr (wpWith_onIndex ?_)
  cases hid : v.jobToSlot.lookup id with
  | none =>
    have hsame : Keeps v ((removeJob id).onPlan (seconds v.slotGap) v.jobToSlot) v := by
      refine ⟨⟨h, ?_, rfl⟩, fun hneat => hneat⟩
      refine Finmap.ext_lookup fun id' => ?_
      simp only [onPlan, Finmap.lookup_erase_ite]
      split_ifs with hi
      · rw [hi, hid]
      · rfl
    have hhot : ∀ slots : List (Σ _ : ℤ, SlotData),
        (∀ slot ∈ slots, v.shown slot.1 = some slot.2) →
        wpWith minds (removeFromHot id slots)
          (fun _ => Keeps v ((removeJob id).onPlan (seconds v.slotGap) v.jobToSlot)) v := by
      intro slots hslots
      refine wpWith_removeFromHot hsame fun slot hmem => ?_
      rw [← QueueView.jobsAt_of_shown (hslots slot hmem), h.listed, hid]
      simp
    simp only [removeJobFallback, perform_bind, wpWith_step, wpWith_ite]
    refine minds_other (a := .isColdSpillingEnabled) trivial trivial fun _ =>
      ⟨fun _ => ?_, fun _ => ?_⟩
    · refine minds_getAllSlots fun slots hslots => ?_
      exact minds_other (a := .getColdSlotKeys) trivial trivial fun coldKeys =>
        wpWith_removeFromCold h hid (hhot slots hslots) coldKeys
    · exact minds_getAllSlots hhot
  | some key =>
    refine wpWith_bind.mpr (wpWith_onIndex ?_)
    refine wpWith_bind.mpr (minds_getSlot ?_)
    have hmem : id ∈ v.jobsAt key := (h.listed key id).mpr hid
    cases hslot : v.shown key with
    | none => simp [QueueView.jobsAt, hslot] at hmem
    | some slot => exact wpWith_shrinkSlot h hid hslot

/-- **One call.** -/
lemma wpWith_program (h : v.Tracks) (hgap : 0 < seconds v.slotGap) (call : QueueCall)
    (hrange : call.DueInRange) (hfresh : call.Fresh v.jobToSlot) :
    wpWith minds call.program
      (fun _ => Keeps v (call.onPlan (seconds v.slotGap) v.jobToSlot)) v := by
  cases call with
  | addJob job => exact wpWith_addJob h hgap hrange hfresh
  | removeJob id => exact wpWith_removeJob h id

/-- **A list of calls**, by induction on the list. -/
lemma wpWith_forEach_program (h : v.Tracks) (hgap : 0 < seconds v.slotGap)
    {calls : List QueueCall} (hrange : ∀ call ∈ calls, call.DueInRange)
    (hfresh : Run.Along (onPlan (seconds v.slotGap)) Fresh v.jobToSlot calls) :
    wpWith minds (forEach calls program)
      (fun _ => Achieves v (calls.foldl (onPlan (seconds v.slotGap)) v.jobToSlot)) v := by
  induction calls generalizing v with
  | nil => exact ⟨h, rfl, rfl⟩
  | cons call rest ih =>
    rw [forEach, wpWith_bind]
    have hone := wpWith_program h hgap call (hrange call List.mem_cons_self) hfresh.1
    refine wpWith_mono minds_mono hone ?_
    rintro _ v' ⟨⟨htracks, hplan, hsame⟩, -⟩
    have hrest := ih htracks (by rwa [hsame])
      (fun call' hmem => hrange call' (List.mem_cons_of_mem call hmem))
      (by rw [hsame, hplan]; exact hfresh.2)
    refine wpWith_mono minds_mono hrest ?_
    rintro _ v'' ⟨htracks', hplan', hsame'⟩
    refine ⟨htracks', ?_, hsame'.trans hsame⟩
    rw [hplan', hsame, hplan]
    rfl

end QueueCall

/-! ## The queue among evictors -/

/-- The queue's calls one after the other, and evictors that each make a number of passes. -/
def queueAndEvictors (calls : List QueueCall) (evictors : ℕ → List SlotEvictor) (n : Node) :
    Config Act Node where
  state := n
  threads := fun t =>
    if t = queueThread then forEach calls QueueCall.program
    else forEach (evictors t) SlotEvictor.evict

lemma lists_iff (n : Node) (key : ℤ) (jobID : String) :
    n.fsm.Lists key jobID ↔ jobID ∈ n.queueView.jobsAt key := by
  cases hslot : n.fsm.getSlot key false with
  | none | some slot => simp [FSM.Lists, QueueView.jobsAt, Node.queueView, hslot]

/-- **No update is lost** in a run on a stable leader in which the evictors do not disturb the queue
and no job is added twice: when the queue's calls are done, the slots list exactly the jobs that
were added and not removed, under their keys. -/
theorem no_lost_slot_update (n : Node) (calls : List QueueCall) (evictors : ℕ → List SlotEvictor)
    (sched : List (ℕ × Env)) (hgap : 0 < seconds n.queue.slotGap) (htracks : n.queueView.Tracks)
    (hrange : ∀ call ∈ calls, call.DueInRange) (hstable : ∀ x ∈ sched, x.2.Stable)
    (hfresh : Run.Along (QueueCall.onPlan (seconds n.queue.slotGap)) QueueCall.Fresh
      n.queue.jobToSlot calls)
    (hundisturbed : Along handle (fun c t β a e => Undisturbed t β a e c.state)
      (queueAndEvictors calls evictors n) sched)
    (hdone : (((queueAndEvictors calls evictors n).run handle sched).threads queueThread).isDone
      = true) (key : ℤ) (jobID : String) :
    ((queueAndEvictors calls evictors n).run handle sched).state.fsm.Lists key jobID ↔
      (calls.foldl (QueueCall.onPlan (seconds n.queue.slotGap)) n.queue.jobToSlot).lookup jobID
        = some key := by
  have hstart : Tended handle Node.queueView LooksFirst UndisturbedLeader (fun _ => True)
      (QueueCall.Achieves n.queueView
        (calls.foldl (QueueCall.onPlan (seconds n.queue.slotGap)) n.queue.jobToSlot))
      SlotEvictor.Moves queueThread (queueAndEvictors calls evictors n) := by
    refine ⟨?_, fun t ht => ?_⟩
    · exact wpWith_mono minds_mono (QueueCall.wpWith_forEach_program htracks hgap hrange hfresh)
        fun _ _ hachieves => ⟨trivial, hachieves⟩
    · simp only [queueAndEvictors, if_neg ht]
      exact all_forEach fun se _ => se.moves_evict
  have hframe : ∀ t, t ≠ queueThread → ∀ {β : Type} (a : Act β) (e : Env) (m : Node),
      UndisturbedLeader t β a e m → SlotEvictor.Moves β a →
      (handle t β a e m).1.queueView = m.queueView :=
    fun _ _ _ _ _ _ hguard hmoves => queueView_of_moves hguard.2 hmoves
  obtain ⟨hend, hplan, _⟩ := (hstart.run hframe ((along_stable hstable _).and handle
    hundisturbed)).finished hdone
  rw [lists_iff, hend.listed, hplan]

/-- A job that is due at the given time. -/
def dueJob (id : String) (timestamp : ℤ) : Job where
  id := id
  type := .unico
  timestamp := timestamp

/-- Evictors with hot windows of so many seconds, in the threads from `1` on. -/
def evictorsOf (windows : List ℤ) (t : ℕ) : List SlotEvictor :=
  if t = queueThread then []
  else windows[t - 1]?.toList.map fun window => newSlotEvictorWithWheel (window * 1000000000) true

lemma tracks_emptyNode : SlotOp.emptyNode.queueView.Tracks := by
  have hshown : ∀ key, SlotOp.emptyNode.queueView.shown key = none := fun key => rfl
  have hindex : ∀ id, SlotOp.emptyNode.queueView.jobToSlot.lookup id = none := fun id => rfl
  refine ⟨fun h => ?_, fun key => ?_, fun key id => ?_, fun h => ?_⟩
  · rw [hshown] at h
    cases h
  · simp [QueueView.jobsAt, hshown]
  · simp [QueueView.jobsAt, hshown, hindex]
  · rw [hindex] at h
    cases h

/-- A slot is archived by the one evictor and brought back by the other, between the queue's
calls. -/
theorem no_lost_slot_update_archived_and_back :
    let calls := [.addJob (dueJob "a" 5), .addJob (dueJob "b" 6), .removeJob "a"]
    let sched := List.replicate 18 (queueThread, Env.calm 100)
      ++ List.replicate 12 (1, Env.calm 100) ++ List.replicate 12 (2, Env.calm 100)
      ++ List.replicate 12 (queueThread, Env.calm 100)
    let c := (queueAndEvictors calls (evictorsOf [1, 1000]) SlotOp.emptyNode).run handle sched
    c.state.fsm.Lists 0 "b" ∧ ¬ c.state.fsm.Lists 0 "a" := by
  intro calls sched c
  have hend := no_lost_slot_update SlotOp.emptyNode calls (evictorsOf [1, 1000]) sched (by decide)
    tracks_emptyNode (by decide) (by decide) (by decide +kernel)
    (along_of_test handle (by decide +kernel)) (by decide +kernel)
  rw [hend, hend]
  decide +kernel

/-- **An update that is lost**: the evictor reads the slot, the queue extends it, and then the slot
is archived as it was read.  Both threads are done, and the job that was added is in no slot. -/
theorem lost_by_archive :
    let calls := [.addJob (dueJob "a" 5), .addJob (dueJob "b" 6)]
    let sched := List.replicate 10 (queueThread, Env.calm 100) ++ List.replicate 5 (1, Env.calm 100)
      ++ List.replicate 8 (queueThread, Env.calm 100) ++ List.replicate 5 (1, Env.calm 100)
    let c := (queueAndEvictors calls (evictorsOf [1]) SlotOp.emptyNode).run handle sched
    (∀ x ∈ sched, x.2.Stable) ∧ (c.threads queueThread).isDone = true ∧
      (c.threads 1).isDone = true ∧
      (calls.foldl (QueueCall.onPlan 10) ∅).lookup "b" = some 0 ∧ c.state.fsm.Lists 0 "a" ∧
      ¬ c.state.fsm.Lists 0 "b" := by
  decide +kernel

end ScheduledDb
