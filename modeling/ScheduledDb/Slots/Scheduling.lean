import ScheduledDb.Slots.Worker

/-!
# Every job is in its slot

A job and its entry in a slot are written by two commands, and so they are deleted.  A session is a
list of operations, each of which may be cut off after any number of steps, lose its leadership or
have a commit fail; between two operations another node, with a queue of its own, may take over.

* `scheduled_session`: after every operation every job is in the slot of its time, if no creation is
  left with its first command only, and if what a removal takes out of a slot is gone from the jobs.
* `unscheduled_after_crash`: the leader crashes between the two commands of a creation.
-/

namespace ScheduledDb

open Machine Program PersistentSlotQueue Store

/-- The slot that `AddJob` writes, having found one or none. -/
def extendSlot (found : Option SlotData) (key gap : ℤ) (jobID : String) : SlotData :=
  match found with
  | none => newSlotData key gap jobID
  | some slotData => { slotData with jobIDs := slotData.jobIDs ++ [jobID] }

lemma mem_extendSlot (found : Option SlotData) (key gap : ℤ) (jobID : String) :
    jobID ∈ (extendSlot found key gap jobID).jobIDs := by
  cases found with
  | none => simp [extendSlot, newSlotData]
  | some slot => simp [extendSlot]

/-! ## The property -/

namespace FSM

/-- Every job that is due at some time is listed in the slot of that time. -/
def Scheduled (gap : ℤ) (f : FSM) : Prop :=
  ∀ id job, f.jobs.lookup id = some job → ∀ t, job.dueTime = some t →
    ∃ slot, f.slots.lookup (t.tdiv gap) = some slot ∧ id ∈ slot.jobIDs

/-- Nothing is in the cold store, and everything is filed under its own name. -/
structure AllHot (f : FSM) : Prop where
  filed : f.Filed
  coldSlotMeta : f.coldSlotMeta = ∅

variable {f : FSM} {gap : ℤ} {key : ℤ} {id : String} {job : Job} {slotData : SlotData}

lemma AllHot.getSlot (h : f.AllHot) (key : ℤ) (readFails : Bool) :
    f.getSlot key readFails = f.slots.lookup key := by
  simp [getSlot_eq, h.coldSlotMeta]

lemma AllHot.apply (h : f.AllHot) {cmd : Command} (hcmd : cmd.type ≠ .archiveSlot)
    (faults : ColdFaults) : (f.apply faults cmd).1.AllHot := by
  refine ⟨h.filed.apply faults cmd, ?_⟩
  have hof := f.effectOf faults cmd.wire
  rw [apply_fst]
  cases heffect : f.effect faults cmd.wire with
  | archive slot =>
    rw [heffect] at hof
    cases hof with
    | archive htype _ _ => exact absurd htype hcmd
  | dropSlot key | unarchive key => simp [Effect.act, h.coldSlotMeta]
  | _ => exact h.coldSlotMeta

lemma extendSlot_key (hfiled : f.Filed) (key gap : ℤ) (id : String) (readFails : Bool) :
    (extendSlot (f.getSlot key readFails) key gap id).key = key := by
  cases hslot : f.getSlot key readFails with
  | none => rfl
  | some slotData => exact (hfiled.getSlot hslot : slotData.key = key)

/-! ## Commands -/

/-- The slot as `AddJob` writes it. -/
def extendedSlot (f : FSM) (key gap : ℤ) (jobID : String) : SlotData :=
  extendSlot (f.slots.lookup key) key gap jobID

lemma extendedSlot_eq (h : f.AllHot) (key gap : ℤ) (jobID : String) (readFails : Bool) :
    extendSlot (f.getSlot key readFails) key gap jobID = f.extendedSlot key gap jobID := by
  rw [h.getSlot]
  rfl

lemma extendedSlot_key (h : f.AllHot) (key gap : ℤ) (jobID : String) :
    (f.extendedSlot key gap jobID).key = key := by
  rw [← extendedSlot_eq h key gap jobID false]
  exact extendSlot_key h.filed key gap jobID false

lemma mem_extendedSlot_of_mem {gap : ℤ} {jobID : String} {slot : SlotData}
    (hslot : f.slots.lookup key = some slot) (hid : id ∈ slot.jobIDs) :
    id ∈ (f.extendedSlot key gap jobID).jobIDs := by
  simp [extendedSlot, extendSlot, hslot, hid]

/-- A job without a time needs no slot. -/
lemma Scheduled.createJob (h : f.Scheduled gap) (hdue : job.dueTime = none) (faults : ColdFaults) :
    (f.apply faults { type := .createJob, job := some job }).1.Scheduled gap := by
  rw [apply_createJob]
  intro id stored hstored t ht
  rw [Finmap.lookup_insert_ite] at hstored
  split_ifs at hstored
  · obtain rfl := Option.some.inj hstored
    change job.dueTime = some t at ht
    simp [hdue] at ht
  · exact h id stored hstored t ht

/-- **Both commands of a creation.** -/
lemma Scheduled.createJob_createSlot {t : ℤ} (h : f.Scheduled gap) (hhot : f.AllHot)
    (hdue : job.dueTime = some t) (faults faults' : ColdFaults) :
    (((f.apply faults { type := .createJob, job := some job }).1.apply faults'
      { type := .createSlot
        slot := some (f.extendedSlot (t.tdiv gap) gap job.id) }).1).Scheduled gap := by
  rw [effect_createSlot, apply_createJob]
  intro id stored hstored s hs
  simp only [Effect.act, Finmap.lookup_insert_ite, extendedSlot_key hhot] at hstored ⊢
  have hself := mem_extendSlot (f.slots.lookup (t.tdiv gap)) (t.tdiv gap) gap job.id
  split_ifs at hstored with hid
  · obtain rfl := Option.some.inj hstored
    obtain rfl : t = s := Option.some.inj (hdue.symm.trans hs)
    rw [hid]
    exact ⟨_, if_pos rfl, hself⟩
  · obtain ⟨slot, hslot, hmem⟩ := h id stored hstored s hs
    by_cases hkey : s.tdiv gap = t.tdiv gap
    · rw [hkey] at hslot ⊢
      exact ⟨_, if_pos rfl, mem_extendedSlot_of_mem hslot hmem⟩
    · exact ⟨slot, (if_neg hkey).trans hslot, hmem⟩

lemma Scheduled.deleteJob (h : f.Scheduled gap) (id : String) (faults : ColdFaults) :
    (f.apply faults { type := .deleteJob, id := id }).1.Scheduled gap := by
  by_cases hid : id = ""
  · subst hid
    exact h
  · rw [apply_deleteJob faults f hid]
    intro id' job hjob t ht
    rw [Finmap.lookup_erase_ite] at hjob
    split_ifs at hjob
    exact h id' job hjob t ht

/-- The command with which a slot is written back after an entry was taken out. -/
def shrinkCommand (key : ℤ) (slotData : SlotData) : Command :=
  if slotData.jobIDs = [] then { type := .deleteSlot, id := printKey key }
  else { type := .createSlot, slot := some slotData }

lemma isSlotCommand_shrinkCommand (key : ℤ) (slotData : SlotData) :
    IsSlotCommand (shrinkCommand key slotData) := by
  unfold shrinkCommand
  split_ifs
  · exact Or.inr rfl
  · exact Or.inl rfl

/-- What a slot command makes of the slots, as far as it concerns ids other than `id`. -/
lemma mem_shrink (hhot : f.AllHot) (hslot : f.slots.lookup key = some slotData)
    (faults : ColdFaults) {key' : ℤ} {slot' : SlotData} {id' : String} (hne : id' ≠ id)
    (hslot' : f.slots.lookup key' = some slot') (hid' : id' ∈ slot'.jobIDs) :
    ∃ slot, (f.apply faults (shrinkCommand key (without slotData id))).1.slots.lookup key'
      = some slot ∧ id' ∈ slot.jobIDs := by
  have hkey : slotData.key = key := hhot.filed.slots key slotData hslot
  have hstays : key' = key → id' ∈ (without slotData id).jobIDs := by
    rintro rfl
    obtain rfl := Option.some.inj (hslot.symm.trans hslot')
    exact (List.mem_erase_of_ne hne).mpr hid'
  unfold shrinkCommand
  split_ifs with hempty
  · have hother : key' ≠ key := by
      intro heq
      have := hstays heq
      simp [hempty] at this
    by_cases hrange : InRange key
    · rw [effect_deleteSlot faults f hrange]
      exact ⟨slot', by simp [Effect.act, hother, hslot'], hid'⟩
    · rw [apply_fst]
      refine ⟨slot', ?_, hid'⟩
      simpa [effect, Command.wire, keyEffect, printKey_ne_empty, scanKey_printKey_eq, hrange,
        Effect.act] using hslot'
  · rw [effect_createSlot]
    simp only [Effect.act, Finmap.lookup_insert_ite]
    by_cases heq : key' = key
    · exact ⟨_, if_pos (heq.trans hkey.symm), hstays heq⟩
    · refine ⟨slot', ?_, hid'⟩
      rw [if_neg]
      · exact hslot'
      · exact fun h => heq (h.trans hkey)

lemma Scheduled.shrink (h : f.Scheduled gap) (hhot : f.AllHot) (hgone : f.jobs.lookup id = none)
    (hslot : f.slots.lookup key = some slotData) (faults : ColdFaults) :
    (f.apply faults (shrinkCommand key (without slotData id))).1.Scheduled gap := by
  intro id' job hjob t ht
  rw [(sameJobs_apply (isSlotCommand_shrinkCommand _ _).leavesJobs f faults).jobs] at hjob
  obtain ⟨slot', hslot', hid'⟩ := h id' job hjob t ht
  have hne : id' ≠ id := by
    rintro rfl
    simp [hgone] at hjob
  exact mem_shrink hhot hslot faults hne hslot' hid'

end FSM

/-! ## Watching over an operation

While an operation runs, the state and the commands applied so far are kept in a relation. -/

/-- The command that was applied, with the state it found. -/
def Event.appliedCommand : Event → Option (FSM × Command)
  | applied before cmd _ => some (before, cmd)
  | _ => none

/-- The commands that were applied, each with the state it found. -/
def Node.appliedCommands (n : Node) : List (FSM × Command) :=
  n.trace.filterMap fun x => x.2.appliedCommand

lemma Node.appliedCommands_applyCommand (n : Node) (thread : ℕ) (faults : ColdFaults)
    (cmd : Command) :
    (n.applyCommand thread faults cmd).appliedCommands = n.appliedCommands ++ [(n.fsm, cmd)] := by
  simp [Node.appliedCommands, Node.applyCommand, Event.appliedCommand]

/-- Nothing was applied in between, and the slots are as long as before. -/
structure Node.Unwritten (n n' : Node) : Prop where
  fsm : n'.fsm = n.fsm
  appliedCommands : n'.appliedCommands = n.appliedCommands
  slotGap : n'.queue.slotGap = n.queue.slotGap

lemma Node.Unwritten.refl (n : Node) : n.Unwritten n := ⟨rfl, rfl, rfl⟩

/-- An action that hands nothing to Raft. -/
def Silent : ∀ β : Type, Act β → Prop
  | _, .raftApply _ => False
  | _, .queue f => ∀ q, (f q).1.slotGap = q.slotGap
  | _, _ => True

lemma Node.Unwritten.handle {n n' : Node} (h : n.Unwritten n') {β : Type} {a : Act β}
    (ha : Silent β a) (e : Env) : n.Unwritten (ScheduledDb.handle 0 β a e n').1 := by
  cases a with
  | raftApply cmd => exact ha.elim
  | queue f => exact ⟨h.fsm, h.appliedCommands, (ha n'.queue).trans h.slotGap⟩
  | executeWebhook job | statusChanged oldStatus newStatus =>
    refine ⟨h.fsm, ?_, h.slotGap⟩
    rw [← h.appliedCommands]
    simp [ScheduledDb.handle, Node.appliedCommands, Node.record, Event.appliedCommand]
  | _ => exact h

/-- The relation between the state and the applied commands, and the length of the slots. -/
def Watched (gap : ℤ) (R : FSM → List (FSM × Command) → Prop) (n : Node) : Prop :=
  R n.fsm n.appliedCommands ∧ seconds n.queue.slotGap = gap

/-- Any environment, and the relation before every step. -/
abbrev watch (gap : ℤ) (R : FSM → List (FSM × Command) → Prop) : Transformer Act Node :=
  watching (Watched gap R) (demonic (handle 0) fun _ _ _ _ => True)

section Watch

variable {gap : ℤ} {R : FSM → List (FSM × Command) → Prop} {n n' : Node} {α β : Type}
  {p : Program Act α} {cmd : Command} {Q : Option String → Node → Prop} {key : ℤ} {tier : Tier}
  {slotData : SlotData}

lemma watch_mono : (watch gap R).Mono := watching_mono demonic_mono

lemma wp_of_watch {Q : α → Node → Prop} {ok : Env → Prop} (h : wpWith (watch gap R) p Q n) :
    wp (handle 0) ok p Q n :=
  wpWith_le demonic_mono (fun _ _ _ h e _ => h.2 e trivial) h

lemma Watched.of_unwritten (h : Watched gap R n) (hn : n.Unwritten n') : Watched gap R n' := by
  refine ⟨?_, hn.slotGap ▸ h.2⟩
  rw [hn.fsm, hn.appliedCommands]
  exact h.1

lemma Watched.applyCommand {faults : ColdFaults} (h : Watched gap R n)
    (hcmd : R (n.fsm.apply faults cmd).1 (n.appliedCommands ++ [(n.fsm, cmd)])) :
    Watched gap R (n.applyCommand 0 faults cmd) := by
  refine ⟨?_, h.2⟩
  rw [Node.appliedCommands_applyCommand]
  exact hcmd

lemma watch_silent {Q : α → Node → Prop} (hp : All Silent p) (h : Watched gap R n)
    (hQ : ∀ a n', n.Unwritten n' → Watched gap R n' → Q a n') : wpWith (watch gap R) p Q n := by
  refine hp.wpWith_within (R := fun n' => n.Unwritten n') (fun a Q n' ha hn' hQ => ?_)
    (Node.Unwritten.refl n) fun a n' hn' => hQ a n' hn' (h.of_unwritten hn')
  exact ⟨h.of_unwritten hn', fun e _ => hQ _ _ (hn'.handle ha e)⟩

lemma watch_raftApply (h : Watched gap R n) (hskip : ∀ err, Q (some err) n)
    (happly : ∀ r faults, Q r (n.applyCommand 0 faults cmd)) :
    wpWith (watch gap R) (raftApply cmd) Q n := by
  simp only [raftApply, perform_bind, wpWith_step]
  refine ⟨h, fun e _ => ?_⟩
  rcases handle_raftApply 0 cmd e n with ⟨message, hsame⟩ | ⟨r, happlied⟩
  · rw [hsame]
    exact hskip _
  · rw [happlied]
    cases r with
    | none => exact happly _ _
    | some message => exact happly _ _

lemma watch_propose (h : Watched gap R n) (hskip : ∀ err, Q (some err) n)
    (happly : ∀ r faults, Q r (n.applyCommand 0 faults cmd)) :
    wpWith (watch gap R) (propose cmd) Q n := by
  refine ⟨h, fun e _ => wpWith_ite.mpr ⟨fun _ => ?_, fun _ => hskip _⟩⟩
  exact watch_raftApply h hskip happly

lemma watch_ifLeader {write : Program Act (Option String)} {Q : Unit → Node → Prop}
    (h : Watched gap R n) (hskip : Q () n) (hwrite : wpWith (watch gap R) write (fun _ => Q ()) n) :
    wpWith (watch gap R) (ifLeader write) Q n := by
  refine ⟨h, fun e _ => wpWith_ite.mpr ⟨fun _ => ?_, fun _ => hskip⟩⟩
  exact wpWith_bind.mpr hwrite

/-- The event handler, as far as the node still leads. -/
lemma watch_handler {event : JobEvent} {job : Option Job} {Q : Unit → Node → Prop}
    (h : Watched gap R n) (hskip : Q () n)
    (hadd : ∀ j, event = .created → job = some j → wpWith (watch gap R) (addJob j) Q n)
    (hremove : ∀ j, event = .deleted → job = some j → wpWith (watch gap R) (removeJob j.id) Q n) :
    wpWith (watch gap R) (notify jobEventHandler event job) Q n := by
  refine ⟨h, fun e _ => wpWith_ite.mpr ⟨fun _ => ?_, fun _ => hskip⟩⟩
  refine ⟨h, fun e _ => wpWith_ite.mpr ⟨fun _ => ?_, fun _ => hskip⟩⟩
  match event, job with
  | .created, some j => exact hadd j rfl rfl
  | .deleted, some j => exact hremove j rfl rfl
  | .created, none => exact hskip
  | .deleted, none => exact hskip

lemma silent_onIndex (f : (Finmap fun _ : String => ℤ) → (Finmap fun _ : String => ℤ) × β) :
    All Silent (onIndex f) :=
  ⟨fun _ => rfl, fun _ => trivial⟩

lemma silent_onWheel (f : HierarchicalTimingWheel → HierarchicalTimingWheel × β) :
    All Silent (onWheel f) :=
  ⟨fun _ => rfl, fun _ => trivial⟩

lemma silent_ensureInit : All Silent ensureInit := by
  refine ⟨fun _ => rfl, fun _ => all_ite.mpr ⟨fun _ => trivial, fun _ => ?_⟩⟩
  exact ⟨trivial, fun now => silent_onWheel fun w => (w.init now, ())⟩

/-! ## Adding and removing -/

lemma watch_getSlot {Q : Option SlotData → Node → Prop} (h : Watched gap R n)
    (hQ : ∀ readFails, Q (n.fsm.getSlot key readFails) n) :
    wpWith (watch gap R) (getSlot key) Q n :=
  wpWith_getSlot (fun _ _ hstep => ⟨h, fun e _ => hstep e trivial⟩) fun _ (_ : True) => hQ _

/-- `AddJob` writes one slot at most: that of the job's time, as it was found, with the job's id. -/
lemma watch_addJob {job : Job} {t : ℤ} (hdue : job.dueTime = some t) (h : Watched gap R n)
    (hwrite : ∀ readFails faults cmd,
      cmd = ({ type := .createSlot
               slot := some (extendSlot (n.fsm.getSlot (t.tdiv gap) readFails) (t.tdiv gap) gap
                 job.id) } : Command) →
      R (n.fsm.apply faults cmd).1 (n.appliedCommands ++ [(n.fsm, cmd)])) :
    wpWith (watch gap R) (addJob job) (fun _ => Watched gap R) n := by
  simp only [addJob, hdue, slotGapSeconds, perform_bind, wpWith_step]
  refine ⟨h, fun e _ => ?_⟩
  change wpWith _ (ensureInit >>= _) _ n
  refine wpWith_bind.mpr (watch_silent silent_ensureInit h fun _ n1 hn1 h1 => wpWith_bind.mpr
    (watch_getSlot h1 fun readFails => ?_))
  have hrest : ∀ n2, Watched gap R n2 → wpWith (watch gap R)
      (onIndex (fun m => (m.insert job.id (t.tdiv (seconds n.queue.slotGap)), ())) >>= fun _ =>
        wheelAdd (t.tdiv (seconds n.queue.slotGap))) (fun _ => Watched gap R) n2 := by
    intro n2 h2
    exact watch_silent ((silent_onIndex _).bind fun _ => silent_onWheel _) h2
      fun _ _ _ hn => hn
  change wpWith _ (ifLeader (createSlot (extendSlot
    (n1.fsm.getSlot (t.tdiv (seconds n.queue.slotGap)) readFails)
    (t.tdiv (seconds n.queue.slotGap)) (seconds n.queue.slotGap) job.id)) >>= _) _ n1
  have hslot : extendSlot (n1.fsm.getSlot (t.tdiv (seconds n.queue.slotGap)) readFails)
      (t.tdiv (seconds n.queue.slotGap)) (seconds n.queue.slotGap) job.id
        = extendSlot (n.fsm.getSlot (t.tdiv gap) readFails) (t.tdiv gap) gap job.id := by
    rw [h.2, hn1.fsm]
  rw [hslot]
  refine wpWith_bind.mpr (watch_ifLeader h1 (hrest n1 h1) (watch_propose h1 ?_ ?_))
  · exact fun _ => hrest n1 h1
  · refine fun _ faults => hrest _ (h1.applyCommand ?_)
    rw [hn1.fsm, hn1.appliedCommands]
    exact hwrite _ faults _ rfl

variable {jobID : String}

/-- Taking an entry out of a slot keeps the relation. -/
def Shrinks (R : FSM → List (FSM × Command) → Prop) (jobID : String) : Prop :=
  ∀ f l key slotData faults, R f l → f.slots.lookup key = some slotData →
    R (f.apply faults (FSM.shrinkCommand key (without slotData jobID))).1
      (l ++ [(f, FSM.shrinkCommand key (without slotData jobID))])

/-- So does taking an entry out of one of the slots there are, in either tier. -/
def TakesOut (R : FSM → List (FSM × Command) → Prop) (jobID : String) (n : Node) : Prop :=
  ∀ tier key slotData faults, n.fsm.slotAt tier key = some slotData →
    R (n.fsm.apply faults (FSM.shrinkCommand key (without slotData jobID))).1
      (n.appliedCommands ++ [(n.fsm, FSM.shrinkCommand key (without slotData jobID))])

lemma TakesOut.of_unwritten (h : TakesOut R jobID n) (hn : n.Unwritten n') :
    TakesOut R jobID n' := by
  intro tier key slotData faults hslot
  rw [hn.fsm] at hslot ⊢
  rw [hn.appliedCommands]
  exact h tier key slotData faults hslot

lemma Shrinks.takesOut (hR : Shrinks R jobID) (hhot : n.fsm.AllHot) (h : Watched gap R n) :
    TakesOut R jobID n := by
  intro tier key slotData faults hslot
  cases tier with
  | hot => exact hR n.fsm n.appliedCommands key slotData faults h.1 hslot
  | cold => simp [FSM.slotAt, hhot.coldSlotMeta] at hslot

lemma watch_shrinkSlot (hR : TakesOut R jobID n) (hslot : n.fsm.slotAt tier key = some slotData)
    (h : Watched gap R n) :
    wpWith (watch gap R) (shrinkSlot key (without slotData jobID)) (fun _ => Watched gap R) n := by
  have hcmd := fun faults => hR tier key slotData faults hslot
  refine wpWith_ite.mpr ⟨fun hempty => ?_, fun hne => ?_⟩
  · simp only [FSM.shrinkCommand, hempty, if_true] at hcmd
    have hremove : ∀ n', Watched gap R n' →
        wpWith (watch gap R) (wheelRemove key) (fun _ => Watched gap R) n' := fun n' h' =>
      watch_silent (silent_onWheel _) h' fun _ _ _ hn => hn
    refine wpWith_bind.mpr (watch_ifLeader h (hremove n h) (watch_propose h ?_ ?_))
    · exact fun _ => hremove n h
    · exact fun _ faults => hremove _ (h.applyCommand (hcmd faults))
  · simp only [FSM.shrinkCommand, hne, if_false] at hcmd
    refine watch_ifLeader h h (watch_propose h (fun _ => h) ?_)
    exact fun _ faults => h.applyCommand (hcmd faults)

lemma watch_removeFound (hR : TakesOut R jobID n) (hslot : n.fsm.slotAt tier key = some slotData)
    (h : Watched gap R n) :
    wpWith (watch gap R) (removeFound jobID key slotData) (fun _ => Watched gap R) n := by
  refine wpWith_seq watch_mono (watch_shrinkSlot hR hslot h) fun _ n' h' => ?_
  exact watch_silent (silent_onIndex _) h' fun _ _ _ hn => hn

lemma watch_removeFromHot (hR : TakesOut R jobID n) {slots : List (Σ _ : ℤ, SlotData)}
    (hslots : ∀ x ∈ slots, n.fsm.slots.lookup x.1 = some x.2) (h : Watched gap R n) :
    wpWith (watch gap R) (removeFromHot jobID slots) (fun _ => Watched gap R) n := by
  induction slots with
  | nil => exact h
  | cons slot rest ih =>
    refine wpWith_ite.mpr ⟨fun _ => ?_,
      fun _ => ih fun x hx => hslots x (List.mem_cons_of_mem _ hx)⟩
    have hslot : n.fsm.slotAt .hot slot.1 = some slot.2 := hslots slot List.mem_cons_self
    exact watch_removeFound hR hslot h

lemma watch_removeFromCold (hR : TakesOut R jobID n) {hot : Program Act Unit}
    (hhot : wpWith (watch gap R) hot (fun _ => Watched gap R) n) {keys : List ℤ}
    (hkeys : ∀ key ∈ keys, key ∈ n.fsm.coldSlotMeta) (h : Watched gap R n) :
    wpWith (watch gap R) (removeFromCold jobID hot keys) (fun _ => Watched gap R) n := by
  induction keys with
  | nil => exact hhot
  | cons key rest ih =>
    have hnext := ih fun key' hkey' => hkeys key' (List.mem_cons_of_mem key hkey')
    rw [removeFromCold, perform_bind, wpWith_step]
    refine ⟨h, fun e _ => ?_⟩
    have hread : ∀ slotData, (handle 0 _ (.getColdSlotData key) e n).2 = some (some slotData) →
        n.fsm.slotAt .cold key = some slotData := by
      intro slotData hslot
      simp only [handle] at hslot
      split_ifs at hslot
      obtain ⟨c, hc, hlook⟩ := Option.map_eq_some_iff.mp hslot
      rw [FSM.slotAt, if_pos (hkeys key List.mem_cons_self), FSM.coldCopy, hc]
      exact hlook
    have hsame : (handle 0 _ (.getColdSlotData key) e n).1 = n := rfl
    rw [hsame]
    cases hslot : (handle 0 _ (.getColdSlotData key) e n).2 with
    | none => exact hnext
    | some found =>
      cases found with
      | none => exact hnext
      | some slotData =>
        refine wpWith_ite.mpr ⟨fun _ => ?_, fun _ => hnext⟩
        exact watch_removeFound hR (hread slotData hslot) h

lemma watch_removeJobFallback (hR : TakesOut R jobID n) (h : Watched gap R n) :
    wpWith (watch gap R) (removeJobFallback jobID) (fun _ => Watched gap R) n := by
  have hentries : ∀ (e : Env), ∀ x ∈ e.order _ n.fsm.slots.sortedEntries,
      n.fsm.slots.lookup x.1 = some x.2 := fun e x hx =>
    (Finmap.mem_sortedEntries _ _ _).mp ((e.order_perm _ _).mem_iff.mp hx)
  have hmarks : ∀ (e : Env), ∀ key ∈ e.order _ n.fsm.coldSlotMeta.val.sortedList,
      key ∈ n.fsm.coldSlotMeta := fun e key hkey =>
    (Multiset.mem_sortedList _ key).mp ((e.order_perm _ _).mem_iff.mp hkey)
  have hhot : ∀ e : Env, wpWith (watch gap R)
      (removeFromHot jobID (e.order _ n.fsm.slots.sortedEntries)) (fun _ => Watched gap R) n :=
    fun e => watch_removeFromHot hR (hentries e) h
  refine ⟨h, fun _ _ => wpWith_ite.mpr ⟨fun _ => ⟨h, fun e _ => ⟨h, fun e' _ => ?_⟩⟩,
    fun _ => ⟨h, fun e _ => hhot e⟩⟩⟩
  exact watch_removeFromCold hR (hhot e) (hmarks e') h

/-- `RemoveJob`, by the index or by the search through the slots. -/
lemma watch_removeJob (hR : TakesOut R jobID n) (h : Watched gap R n) :
    wpWith (watch gap R) (removeJob jobID) (fun _ => Watched gap R) n := by
  refine wpWith_bind.mpr (watch_silent (silent_onIndex _) h fun key n1 hn1 h1 => ?_)
  have hR1 := hR.of_unwritten hn1
  cases key with
  | none => exact watch_removeJobFallback hR1 h1
  | some key =>
    refine wpWith_bind.mpr (watch_silent (silent_onIndex _) h1 fun _ n2 hn2 h2 => ?_)
    refine wpWith_bind.mpr (watch_getSlot h2 fun readFails => ?_)
    cases hslot : n2.fsm.getSlot key readFails with
    | none => exact h2
    | some slotData =>
      obtain ⟨tier, htier⟩ := FSM.exists_slotAt_of_getSlot hslot
      exact watch_shrinkSlot (hR1.of_unwritten hn2) htier h2

/-- `DeleteJob`: the job, then its entry. -/
lemma watch_deleteJob (hfiled : ∀ job, n.fsm.jobs.lookup jobID = some job → job.id = jobID)
    (hdelete : ∀ faults, R (n.fsm.apply faults { type := .deleteJob, id := jobID }).1
      (n.appliedCommands ++ [(n.fsm, { type := .deleteJob, id := jobID })]))
    (hR : ∀ n', Watched gap R n' → TakesOut R jobID n') (h : Watched gap R n) :
    wpWith (watch gap R) (deleteJob jobEventHandler jobID) (fun _ => Watched gap R) n := by
  refine ⟨h, fun e _ => wpWith_ite.mpr ⟨fun _ => ⟨h, fun e' _ => ?_⟩, fun _ => h⟩⟩
  change wpWith _ (raftApply { type := .deleteJob, id := jobID } >>= _) _ n
  refine wpWith_bind.mpr (watch_raftApply h (fun _ => h) fun r faults => ?_)
  have h1 := h.applyCommand (hdelete faults)
  cases r with
  | some err => exact h1
  | none =>
    refine wpWith_bind.mpr (watch_handler h1 h1 (fun j hevent _ => by cases hevent)
      fun j _ hj => ?_)
    rw [hfiled j hj]
    exact watch_removeJob (hR _ h1) h1

/-- The worker removes a job from the slots in any case. -/
lemma watch_removeExecuted (hfiled : ∀ job, n.fsm.jobs.lookup jobID = some job → job.id = jobID)
    (hdelete : ∀ faults, R (n.fsm.apply faults { type := .deleteJob, id := jobID }).1
      (n.appliedCommands ++ [(n.fsm, { type := .deleteJob, id := jobID })]))
    (hR : ∀ n', Watched gap R n' → TakesOut R jobID n') (h : Watched gap R n) :
    wpWith (watch gap R) (Worker.removeExecuted jobID) (fun _ => Watched gap R) n := by
  refine wpWith_bind.mpr (watch_ifLeader h (watch_removeJob (hR n h) h) ?_)
  exact wpWith_mono watch_mono (watch_deleteJob hfiled hdelete hR h)
    fun _ n' h' => watch_removeJob (hR n' h') h'

/-! ## Looking for the next slot -/

lemma silent_collectJobs (ids : List String) : All Silent (collectJobs ids) := by
  induction ids with
  | nil => trivial
  | cons jobID rest ih => exact ⟨trivial, fun _ => ih.bind fun _ => trivial⟩

lemma silent_peekSlot : All Silent peekSlot := by
  simp only [peekSlot, onWheel, slotGapSeconds, perform_bind, all_step, all_ite]
  refine ⟨fun _ => rfl, fun minTime => ⟨fun _ => trivial, fun _ => ⟨fun _ => rfl, fun gap =>
    (all_getSlot trivial trivial).bind fun slot => ?_⟩⟩⟩
  cases slot with
  | none => trivial
  | some slotData =>
    refine (silent_collectJobs _).bind fun jobs => ?_
    exact all_ite.mpr ⟨fun _ => trivial, fun _ => trivial⟩

/-- `GetNextSlot` deletes slots, and that is all it writes. -/
lemma watch_getNextSlot (hdelete : ∀ n' key faults, Watched gap R n' →
      R (n'.fsm.apply faults { type := .deleteSlot, id := printKey key }).1
        (n'.appliedCommands ++ [(n'.fsm, { type := .deleteSlot, id := printKey key })]))
    (h : Watched gap R n) : wpWith (watch gap R) getNextSlot (fun _ => Watched gap R) n := by
  have hdrop : ∀ key n', Watched gap R n' →
      wpWith (watch gap R) (dropIfDead key) (fun _ => Watched gap R) n' := by
    intro key n' h'
    refine wpWith_bind.mpr (watch_getSlot h' fun readFails => ?_)
    cases n'.fsm.getSlot key readFails with
    | none => exact watch_silent (silent_onWheel _) h' fun _ _ _ hn => hn
    | some slotData =>
      refine wpWith_ite.mpr ⟨fun _ => wpWith_bind.mpr ?_, fun _ => h'⟩
      refine watch_silent (silent_onWheel _) h' fun _ n1 _ h1 => ?_
      refine watch_ifLeader h1 h1 (watch_propose h1 (fun _ => h1) fun _ faults => ?_)
      exact h1.applyCommand (hdelete n1 key faults h1)
  refine wpWith_bind.mpr (watch_silent silent_ensureInit h fun _ n1 _ h1 => ?_)
  rw [perform_bind, wpWith_step]
  refine ⟨h1, fun e _ => ?_⟩
  refine wpWith_bind.mpr (watch_silent (silent_onWheel _) h1 fun readyKeys n2 _ h2 => ?_)
  refine wpWith_seq watch_mono
    (wpWith_forEach watch_mono readyKeys (fun key _ n' h' => hdrop key n' h') h2) fun _ n3 h3 => ?_
  exact watch_silent silent_peekSlot h3 fun _ _ _ hn => hn

end Watch

/-! ## Adding on a stable leader -/

section Stable

variable {gap : ℤ} {n : Node}

lemma wp_silent {ok : Env → Prop} {α : Type} {p : Program Act α} (hp : All Silent p) (n : Node) :
    wp (handle 0) ok p (fun _ n' => n.Unwritten n') n :=
  hp.invariant (fun _ e _ ha _ hn' => hn'.handle ha e) (Node.Unwritten.refl n)

/-- On a stable leader `AddJob` writes one slot: that of the job's time, as it was found, with the
job's id. -/
lemma wp_addJob_write {job : Job} {t : ℤ} (hdue : job.dueTime = some t)
    (hgap : seconds n.queue.slotGap = gap) {Q : Unit → Node → Prop} (hQ : ∀ n' readFails faults cmd,
      cmd = ({ type := .createSlot
               slot := some (extendSlot (n.fsm.getSlot (t.tdiv gap) readFails) (t.tdiv gap) gap
                 job.id) } : Command) →
      n'.fsm = (n.fsm.apply faults cmd).1 →
      n'.appliedCommands = n.appliedCommands ++ [(n.fsm, cmd)] →
      seconds n'.queue.slotGap = gap → Q () n') : wp (handle 0) Env.Stable (addJob job) Q n := by
  simp only [addJob, hdue, slotGapSeconds, perform_bind, wp_step]
  intro _ _
  change wp _ _ (ensureInit >>= _) _ n
  refine wp_seq (wp_silent silent_ensureInit n) fun _ n1 h1 => wp_bind.mpr
    (wp_getSlot fun e _ => ?_)
  have hslot : extendSlot (n1.fsm.getSlot (t.tdiv (seconds n.queue.slotGap)) e.faults.get.isSome)
      (t.tdiv (seconds n.queue.slotGap)) (seconds n.queue.slotGap) job.id
        = extendSlot (n.fsm.getSlot (t.tdiv gap) e.faults.get.isSome) (t.tdiv gap) gap job.id := by
    rw [hgap, h1.fsm]
  change wp _ _ (ifLeader (createSlot (extendSlot
    (n1.fsm.getSlot (t.tdiv (seconds n.queue.slotGap)) e.faults.get.isSome)
    (t.tdiv (seconds n.queue.slotGap)) (seconds n.queue.slotGap) job.id)) >>= _) _ n1
  rw [hslot]
  refine wp_bind.mpr (wpWith_ifLeader (fun _ _ _ he => he) (wpWith_propose
    (fun _ _ _ he => he) fun e' _ => ?_))
  refine wp_mono (wp_silent ((silent_onIndex _).bind fun _ => silent_onWheel _) _) fun _ n3 h3 => ?_
  refine hQ n3 e.faults.get.isSome e'.faults _ rfl ?_ ?_ ?_
  · rw [h3.fsm, Node.applyCommand_fsm, h1.fsm]
  · rw [h3.appliedCommands, Node.appliedCommands_applyCommand, h1.appliedCommands, h1.fsm]
  · rw [h3.slotGap, Node.applyCommand_queue, h1.slotGap, hgap]

end Stable

/-! ## Operations -/

/-- If the job was created, and has a time, its slot was written. -/
def CreatedWhole (job : Job) (applied : List (FSM × Command)) : Prop :=
  job.dueTime ≠ none → (∃ x ∈ applied, x.2.type = .createJob) →
    ∃ x ∈ applied, x.2.type = .createSlot

/-- When a slot was written, the job was gone. -/
def RemovedWhole (id : String) (applied : List (FSM × Command)) : Prop :=
  ∀ x ∈ applied, x.2.type = .createSlot ∨ x.2.type = .deleteSlot → x.1.jobs.lookup id = none

/-- Everything is scheduled, unless the applied commands are not as they should be. -/
def ScheduledIf (whole : List (FSM × Command) → Prop) (gap : ℤ) (f : FSM)
    (applied : List (FSM × Command)) : Prop :=
  f.AllHot ∧ (whole applied → f.Scheduled gap)

section Operations

variable {gap : ℤ} {n : Node}

/-- Creating a job.  Between the two commands the applied commands are not whole, and nothing is to
be shown. -/
lemma watch_createJob {job : Job} (h : Watched gap (ScheduledIf (CreatedWhole job) gap) n)
    (hnone : n.appliedCommands = []) :
    wpWith (watch gap (ScheduledIf (CreatedWhole job) gap)) (createJob jobEventHandler job)
      (fun _ => Watched gap (ScheduledIf (CreatedWhole job) gap)) n := by
  obtain ⟨⟨hhot, hsched⟩, hgap⟩ := h
  have hstart : n.fsm.Scheduled gap := hsched (by simp [CreatedWhole, hnone])
  refine wpWith_bind.mpr (watch_propose ⟨⟨hhot, hsched⟩, hgap⟩
    (fun _ => ⟨⟨hhot, hsched⟩, hgap⟩) fun r faults => ?_)
  have hhot1 : (n.fsm.apply faults { type := .createJob, job := some job }).1.AllHot :=
    hhot.apply (by simp) faults
  have h1 : Watched gap (ScheduledIf (CreatedWhole job) gap)
      (n.applyCommand 0 faults { type := .createJob, job := some job }) := by
    refine ⟨⟨hhot1, fun hwhole => ?_⟩, hgap⟩
    rw [Node.appliedCommands_applyCommand, hnone] at hwhole
    refine hstart.createJob ?_ faults
    by_contra hdue
    simpa using hwhole hdue ⟨_, List.mem_append_right _ List.mem_cons_self, rfl⟩
  cases r with
  | some err => exact h1
  | none =>
    refine wpWith_bind.mpr (watch_handler h1 h1 (fun j _ hj => ?_)
      fun j hevent _ => by cases hevent)
    obtain rfl : job = j := Option.some.inj hj
    cases hdue : job.dueTime with
    | none =>
      simp only [addJob, hdue]
      exact h1
    | some t =>
      refine watch_addJob hdue h1 fun readFails faults' cmd hcmd => ?_
      have hslot := FSM.extendedSlot_eq hhot1 (t.tdiv gap) gap job.id readFails
      rw [Node.applyCommand_fsm, hslot] at hcmd
      subst hcmd
      refine ⟨hhot1.apply (by simp) faults', fun _ => ?_⟩
      exact hstart.createJob_createSlot hhot hdue faults faults'

lemma shrinks_scheduledIf (id : String) : Shrinks (ScheduledIf (RemovedWhole id) gap) id := by
  rintro f l key slotData faults ⟨hhot, hsched⟩ hslot
  have htype := FSM.isSlotCommand_shrinkCommand key (without slotData id)
  refine ⟨hhot.apply ?_ faults, fun hwhole => ?_⟩
  · intro harchive
    rcases htype with htype | htype <;> simp [harchive] at htype
  · have hgone : f.jobs.lookup id = none :=
      hwhole (f, FSM.shrinkCommand key (without slotData id)) (by simp) htype
    exact (hsched fun x hx => hwhole x (List.mem_append_left _ hx)).shrink hhot hgone hslot faults

/-- Deleting a job leaves everything scheduled, and whoever was gone stays gone. -/
lemma scheduledIf_deleteJob {id : String} (h : Watched gap (ScheduledIf (RemovedWhole id) gap) n)
    (faults : ColdFaults) :
    ScheduledIf (RemovedWhole id) gap (n.fsm.apply faults { type := .deleteJob, id := id }).1
      (n.appliedCommands ++ [(n.fsm, { type := .deleteJob, id := id })]) := by
  obtain ⟨⟨hhot, hsched⟩, -⟩ := h
  refine ⟨hhot.apply (by simp) faults, fun hwhole => ?_⟩
  exact (hsched fun x hx => hwhole x (List.mem_append_left _ hx)).deleteJob id faults

end Operations

/-- What changes jobs and slots, and a change of leader in between. -/
inductive ScheduleOp where
  | createJob (job : Job)
  | deleteJob (id : String)
  /-- The worker removes a job that it has executed. -/
  | removeExecuted (id : String)
  /-- The worker creates a recurring job anew. -/
  | reschedule (job : Job)
  /-- Another node takes over, with a queue of its own. -/
  | takeOver (queue : PersistentSlotQueue)

namespace ScheduleOp

def program : ScheduleOp → Program Act Unit
  | createJob job => Store.createJob jobEventHandler job >>= fun _ => pure ()
  | deleteJob id => Store.deleteJob jobEventHandler id >>= fun _ => pure ()
  | removeExecuted id => Worker.removeExecuted id
  | reschedule job => Worker.reschedule job
  | takeOver queue => perform (.queue fun q => ({ queue with slotGap := q.slotGap }, ()))

/-- The commands of the operation that were applied are as they should be. -/
def Whole (applied : List (FSM × Command)) : ScheduleOp → Prop
  | createJob job => CreatedWhole job applied
  | deleteJob id => RemovedWhole id applied
  | removeExecuted id => RemovedWhole id applied
  | reschedule job => CreatedWhole job applied
  | takeOver _ => True

instance (applied : List (FSM × Command)) (op : ScheduleOp) : Decidable (op.Whole applied) :=
  match op with
  | createJob _ => inferInstanceAs (Decidable (_ → _ → ∃ x ∈ applied, _))
  | deleteJob _ => inferInstanceAs (Decidable (∀ x ∈ applied, _))
  | removeExecuted _ => inferInstanceAs (Decidable (∀ x ∈ applied, _))
  | reschedule _ => inferInstanceAs (Decidable (_ → _ → ∃ x ∈ applied, _))
  | takeOver _ => isTrue trivial

/-- **One operation**, wherever it is cut off. -/
lemma watch_program (op : ScheduleOp) {gap : ℤ} {n : Node}
    (h : Watched gap (ScheduledIf (fun l => op.Whole l) gap) n) (hnone : n.appliedCommands = []) :
    wpWith (watch gap (ScheduledIf (fun l => op.Whole l) gap)) op.program
      (fun _ => Watched gap (ScheduledIf (fun l => op.Whole l) gap)) n := by
  cases op with
  | createJob job => exact wpWith_bind.mpr (watch_createJob h hnone)
  | deleteJob id =>
    exact wpWith_bind.mpr (watch_deleteJob (h.1.1.filed.jobs id) (scheduledIf_deleteJob h)
      (fun n' h' => (shrinks_scheduledIf id).takesOut h'.1.1 h') h)
  | removeExecuted id =>
    exact watch_removeExecuted (h.1.1.filed.jobs id) (scheduledIf_deleteJob h)
      (fun n' h' => (shrinks_scheduledIf id).takesOut h'.1.1 h') h
  | reschedule job => exact watch_ifLeader h h (watch_createJob h hnone)
  | takeOver queue =>
    have hsilent : All Silent (takeOver queue).program := ⟨fun _ => rfl, fun _ => trivial⟩
    exact watch_silent hsilent h fun _ _ _ hn => hn

end ScheduleOp

/-! ## Sessions -/

/-- An operation, the number of steps it gets to make, and what it meets with at each. -/
structure Attempt where
  op : ScheduleOp
  steps : ℕ
  env : ℕ → Env

namespace Attempt

/-- The node after the attempt, with the trace of the attempt. -/
def outcome (n : Node) (a : Attempt) : Node :=
  runFor (handle 0) a.steps a.op.program a.env { n with trace := [] }

/-- A session of attempts. -/
def session (attempts : List Attempt) (n : Node) : Node := attempts.foldl outcome n

/-- Every attempt leaves its commands as they should be. -/
def WholeSession : List Attempt → Node → Prop
  | [], _ => True
  | a :: rest, n => a.op.Whole (a.outcome n).appliedCommands ∧ WholeSession rest (a.outcome n)

instance instDecidableWholeSession :
    ∀ (attempts : List Attempt) (n : Node), Decidable (WholeSession attempts n)
  | [], _ => isTrue trivial
  | a :: rest, n =>
    have := instDecidableWholeSession rest (a.outcome n)
    inferInstanceAs (Decidable (_ ∧ _))

lemma outcome_spec (a : Attempt) {gap : ℤ} {n : Node} (hhot : n.fsm.AllHot)
    (hstart : n.fsm.Scheduled gap) (hgap : seconds n.queue.slotGap = gap) :
    Watched gap (ScheduledIf (fun l => a.op.Whole l) gap) (a.outcome n) := by
  have hready : Watched gap (ScheduledIf (fun l => a.op.Whole l) gap) { n with trace := [] } :=
    ⟨⟨hhot, fun _ => hstart⟩, hgap⟩
  exact runFor_of_watching (a.op.watch_program hready rfl) a.steps a.env

/-- **Every job is in its slot**, after every operation of a session in which every operation leaves
its commands as they should be. -/
theorem scheduled_session (n : Node) (attempts : List Attempt) (hhot : n.fsm.AllHot)
    (hstart : n.fsm.Scheduled (seconds n.queue.slotGap)) (hwhole : WholeSession attempts n) :
    ∀ made, made <+: attempts → (session made n).fsm.Scheduled (seconds n.queue.slotGap) := by
  generalize hgap : seconds n.queue.slotGap = gap at hstart ⊢
  induction attempts generalizing n with
  | nil => simpa [session] using hstart
  | cons a rest ih =>
    obtain ⟨⟨hhot', hsched⟩, hgap'⟩ := a.outcome_spec hhot hstart hgap
    simp only [List.prefix_cons_iff, forall_eq_or_imp, forall_exists_index, and_imp]
    refine ⟨hstart, ?_⟩
    rintro _ made rfl hmade
    exact ih (a.outcome n) hhot' hwhole.2 hgap' (hsched hwhole.1) made hmade

end Attempt

/-- A node without jobs, whose slots last ten seconds. -/
def blankNode : Node where
  fsm := newFSM
  queue := newPersistentSlotQueue 0

namespace Attempt

/-- A job is created, its leader is replaced, and the job is deleted. -/
theorem scheduled_session_of_three :
    let attempts : List Attempt :=
      [⟨.createJob { id := "a", type := .unico, timestamp := some 25 }, 20, fun _ => Env.calm 0⟩,
        ⟨.takeOver (newPersistentSlotQueue 0), 1, fun _ => Env.calm 0⟩,
        ⟨.deleteJob "a", 20, fun _ => Env.calm 1⟩]
    (session (attempts.take 1) blankNode).fsm.Scheduled 10 ∧
      (session attempts blankNode).fsm.Scheduled 10 := by
  intro attempts
  have hall := scheduled_session blankNode attempts ⟨FSM.filed_newFSM, rfl⟩
    (by simp [FSM.Scheduled, blankNode, newFSM]) (by decide +kernel)
  exact ⟨hall _ (List.take_prefix 1 _), hall _ List.prefix_rfl⟩

/-- **A job without a slot**: the leader crashes after the first command of a creation. -/
theorem unscheduled_after_crash :
    let attempt : Attempt :=
      ⟨.createJob { id := "a", type := .unico, timestamp := some 25 }, 2, fun _ => Env.calm 0⟩
    (session [attempt] blankNode).fsm.jobs.lookup "a"
        = some { id := "a", type := .unico, timestamp := some 25 } ∧
      (session [attempt] blankNode).fsm.slots.lookup (Int.tdiv 25 10) = none ∧
      ¬ (session [attempt] blankNode).fsm.Scheduled 10 := by
  intro attempt
  have hjob : (session [attempt] blankNode).fsm.jobs.lookup "a"
      = some { id := "a", type := .unico, timestamp := some 25 } := by decide +kernel
  have hslot : (session [attempt] blankNode).fsm.slots.lookup (Int.tdiv 25 10) = none := by
    decide +kernel
  refine ⟨hjob, hslot, fun hsched => ?_⟩
  obtain ⟨slot, hfound, _⟩ := hsched "a" _ hjob 25 rfl
  rw [hslot] at hfound
  cases hfound

end Attempt

end ScheduledDb
