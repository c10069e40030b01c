import ScheduledDb.Slots.Passes
import ScheduledDb.Slots.SlotEviction

/-!
# The index and the slots agree

The queue's index says in which slot a job is; the slots, in the store, list their jobs.  On a
stable leader without cold spilling the two agree after every sequence of operations, if no job is
created whose id is in use: `index_agrees`.

* **Views.**  What a call of the queue does to the slots and the index is known from
  `SlotEviction.lean`; `RemoveSlot` and the first half of `GetNextSlot` are added here.
  `wp_of_minds` brings this down to the node.
* **Operations.**  An id in the index is that of a job in the store.  So an id not in use is not in
  the index, and adding it does not list it twice.  `DeleteJob` breaks this for one id until its
  event handler has run.
* **Passes.**  A pass of the worker removes each executed job twice, once by the event handler and
  once itself, and the second time finds it neither in the index nor in a slot.  The ids it creates
  anew are distinct because those of a slot are.
-/

namespace ScheduledDb

open Machine Program PersistentSlotQueue FSM Env QueueView

/-! ## Views -/

namespace QueueView

variable {v : QueueView}

lemma lookup_foldl_erase {id : String} (ids : List String) (m : Finmap fun _ : String => ℤ) :
    (ids.foldl (fun m id => m.erase id) m).lookup id = if id ∈ ids then none else m.lookup id := by
  induction ids generalizing m with
  | nil => simp
  | cons id' ids ih =>
    rw [List.foldl_cons, ih, Finmap.lookup_erase_ite]
    by_cases hid : id = id' <;> simp [hid]

/-- A slot less, and its jobs no longer in the index. -/
lemma Tracks.dropSlot (h : v.Tracks) (key : ℤ) :
    (v.write key none ((v.jobsAt key).foldl (fun m id => m.erase id) v.jobToSlot)).Tracks := by
  constructor
  · intro key' slot' hslot'
    simp only [write, Function.update_apply] at hslot'
    split_ifs at hslot'
    exact h.filed hslot'
  · intro key'
    rw [jobsAt_write]
    split_ifs
    · exact List.nodup_nil
    · exact h.nodup key'
  · intro key' id'
    rw [jobsAt_write]
    simp only [write, lookup_foldl_erase, h.listed]
    split_ifs with hk hlisted hlisted
    · simp
    · simpa [hk] using hlisted
    · rw [h.listed, hlisted]
      simpa using Ne.symm hk
    · exact h.listed key' id'
  · intro id' key' hlookup
    simp only [write, lookup_foldl_erase] at hlookup
    split_ifs at hlookup
    exact h.inRange hlookup

end QueueView

section Minds

variable {v : QueueView}

lemma wpWith_removeSlot (h : v.Tracks) {key : ℤ} (hkey : InRange key) :
    wpWith minds (removeSlot key) (fun _ v' => v'.Tracks ∧ (v.Neat → v'.Neat) ∧
      v'.slotGap = v.slotGap ∧
      ∀ id k, v'.jobToSlot.lookup id = some k → v.jobToSlot.lookup id = some k) v := by
  have hdrop : ∀ index, index = (v.jobsAt key).foldl (fun m id => m.erase id) v.jobToSlot →
      wpWith minds
        (do wheelRemove key
            Store.ifLeader (Store.deleteSlot key))
        (fun _ v' => v'.Tracks ∧ (v.Neat → v'.Neat) ∧ v'.slotGap = v.slotGap ∧
          ∀ id k, v'.jobToSlot.lookup id = some k → v.jobToSlot.lookup id = some k)
        { v with jobToSlot := index } := by
    rintro _ rfl
    refine wpWith_bind.mpr (wpWith_onWheel fun _ => wpWith_deleteSlot hkey ?_)
    refine ⟨h.dropSlot key, fun hneat => hneat.write (by simp), rfl, fun id k hid => ?_⟩
    simp only [lookup_foldl_erase] at hid
    split_ifs at hid
    exact hid
  refine wpWith_bind.mpr (minds_getSlot ?_)
  cases hslot : v.shown key with
  | none => exact hdrop v.jobToSlot (by simp [jobsAt, hslot])
  | some slot =>
    refine wpWith_bind.mpr ?_
    rw [untrack]
    refine wpWith_onIndex (hdrop _ ?_)
    rw [jobsAt_of_shown hslot]

/-- Neat slots are left alone. -/
lemma wpWith_dropIfDead (h : v.Neat) (key : ℤ) :
    wpWith minds (dropIfDead key) (fun _ v' => v' = v) v := by
  refine wpWith_bind.mpr (minds_getSlot ?_)
  cases hslot : v.shown key with
  | none => exact wpWith_onWheel fun _ => rfl
  | some slot => exact wpWith_ite.mpr ⟨fun hempty => absurd hempty (h hslot).1, fun _ => rfl⟩

end Minds

/-! ## Down to the node -/

variable {f : FSM} {e : Env} {β : Type} {n : Node} {a : Act β} {gap : ℤ}

lemma FSM.coldCopy_of_none (hcold : f.coldStore = none) (key : ℤ) : f.coldCopy key = none := by
  simp [coldCopy, hcold]

/-- There are no cold slots to read, so that it does not matter whether reading them fails. -/
lemma FSM.getSlot_of_none (hcold : f.coldStore = none) (key : ℤ) (readFails : Bool) :
    f.getSlot key readFails = f.slots.lookup key := by
  simp [getSlot_eq, coldCopy_of_none hcold]

lemma coldStore_handle {t : ℕ} (hcold : n.fsm.coldStore = none) :
    (handle t β a e n).1.fsm.coldStore = none := by
  refine handle_keeps (I := fun f => f.coldStore = none) t hcold fun cmd _ =>
    Option.not_isSome_iff_eq_none.mp ?_
  rw [isSome_coldStore_apply, hcold]
  simp

lemma sameJobs_handle (ha : Quiet IsSlotCommand β a) (t : ℕ) (e : Env) (n : Node) :
    n.fsm.SameJobs (handle t β a e n).1.fsm :=
  handle_keeps t (SameJobs.refl n.fsm) fun _ hcmd =>
    sameJobs_apply ((Store.Issues.of_quiet ha).of_command hcmd).leavesJobs n.fsm e.faults

/-- Without a cold store nothing disturbs the queue. -/
lemma minds_step (ha : Quiet IsSlotCommand β a) {Q : β → QueueView → Prop}
    (hcold : n.fsm.coldStore = none) (h : minds β a Q n.queueView) (he : e.Stable) :
    Q (handle queueThread β a e n).2 (handle queueThread β a e n).1.queueView := by
  obtain ⟨-, hfirst, hall⟩ := h
  cases a with
  | raftApply cmd =>
    refine hall n e rfl ⟨he, fun htype => ?_, fun htype => ?_⟩
    · rcases ha with ha | ha <;> simp [ha] at htype
    · rcases ha with ha | ha <;> simp [ha] at htype
  | getColdSlot key =>
    have hnone : n.fsm.getSlot key false = none := hfirst (by simp [Node.queueView, hcold])
    have hcopy := coldCopy_of_none hcold key
    have hread := hall n { e with faults := {} } rfl ⟨he, fun _ => ⟨rfl, hcopy.trans hnone.symm⟩⟩
    simpa [handle, hcopy] using hread
  | getColdSlotData key =>
    refine hall n e rfl ⟨he, fun slot hslot => ?_⟩
    simp [coldCopy_of_none hcold] at hslot
  | _ => exact hall n e rfl ⟨he, trivial⟩

/-- What the queue does to its view it does to the node, and it leaves the jobs alone. -/
theorem wp_of_minds {α : Type} {p : Program Act α} (hp : All (Quiet IsSlotCommand) p)
    {Q : α → QueueView → Prop} (hcold : n.fsm.coldStore = none) (h : wpWith minds p Q n.queueView) :
    wp (handle queueThread) Stable p
      (fun a n' => Q a n'.queueView ∧ n'.fsm.coldStore = none ∧ n.fsm.SameJobs n'.fsm) n := by
  induction p generalizing n with
  | done a => exact ⟨h, hcold, SameJobs.refl n.fsm⟩
  | step a k ih =>
    obtain ⟨ha, hrest⟩ := hp
    intro e he
    refine wp_mono (ih _ (hrest _) (coldStore_handle hcold) (minds_step ha hcold h he)) ?_
    rintro b n' ⟨hQ, hcold', hsame⟩
    exact ⟨hQ, hcold', (sameJobs_handle ha queueThread e n).trans hsame⟩

/-! ## Operations -/

lemma queueView_of_sameSlots {n' : Node} (h : n.fsm.SameSlots n'.fsm)
    (hqueue : n'.queue = n.queue) :
    n'.queueView = n.queueView := by
  have hget : ∀ key, n'.fsm.getSlot key false = n.fsm.getSlot key false := by
    intro key
    simp only [getSlot_eq, coldCopy, h.slots, h.coldSlotMeta, h.coldStore]
  simp only [Node.queueView, hget, hqueue, h.coldStore]

namespace FSM

variable (f : FSM) (faults : ColdFaults) {id id' : String} {job : Job}

lemma lookup_deleteJob_of_ne (hne : id' ≠ id) :
    (f.apply faults { type := .deleteJob, id := id }).1.jobs.lookup id' = f.jobs.lookup id' := by
  by_cases hempty : id = ""
  · rw [hempty, apply_deleteJob_empty]
  · rw [apply_deleteJob _ _ hempty]
    exact Finmap.lookup_erase_ne hne

variable {f faults} in
lemma lookup_of_deleteJob
    (h : (f.apply faults { type := .deleteJob, id := id }).1.jobs.lookup id' = some job) :
    f.jobs.lookup id' = some job := by
  by_cases hempty : id = ""
  · rwa [hempty, apply_deleteJob_empty] at h
  · rw [apply_deleteJob _ _ hempty] at h
    exact Finmap.lookup_of_erase h

end FSM

/-- The slots of a node without cold spilling are in order, and every id of the index is that of a
job in the store, except for one that may be gone. -/
structure InOrder (gap : ℤ) (gone : Option String) (n : Node) : Prop where
  tracks : n.queueView.Tracks
  neat : n.queueView.Neat
  slotGap : seconds n.queue.slotGap = gap
  noCold : n.fsm.coldStore = none
  live : ∀ id key, n.queue.jobToSlot.lookup id = some key → gone ≠ some id →
    ∃ job, n.fsm.jobs.lookup id = some job
  filed : ∀ id job, n.fsm.jobs.lookup id = some job → job.id = id

/-- The index is without an id. -/
def Drops (id : String) (n n' : Node) : Prop :=
  ∀ id', n'.queue.jobToSlot.lookup id'
    = if id' = id then none else n.queue.jobToSlot.lookup id'

namespace InOrder

variable {gap : ℤ} {gone : Option String} {n n' : Node}

/-- An id that is not in use is not in the index. -/
lemma lookup_of_unused (h : InOrder gap none n) {id : String} (hid : n.fsm.jobs.lookup id = none) :
    n.queue.jobToSlot.lookup id = none := by
  cases hkey : n.queue.jobToSlot.lookup id with
  | none => rfl
  | some key =>
    obtain ⟨job, hjob⟩ := h.live id key hkey (by simp)
    simp [hid] at hjob

/-- Another state with the same view and the same jobs. -/
lemma of_same (h : InOrder gap gone n) (hview : n'.queueView = n.queueView)
    (hcold : n'.fsm.coldStore = none) (hjobs : n'.fsm.jobs = n.fsm.jobs) : InOrder gap gone n' := by
  have hindex : n'.queue.jobToSlot = n.queue.jobToSlot := congrArg QueueView.jobToSlot hview
  have hgap : n'.queue.slotGap = n.queue.slotGap := congrArg QueueView.slotGap hview
  exact
    { tracks := hview ▸ h.tracks
      neat := hview ▸ h.neat
      slotGap := hgap ▸ h.slotGap
      noCold := hcold
      live := by rw [hindex, hjobs]; exact h.live
      filed := by rw [hjobs]; exact h.filed }

lemma wp_removeJob (h : InOrder gap gone n) {id : String}
    (hgone : ∀ id', gone = some id' → id' = id) :
    wp (handle queueThread) Stable (removeJob id)
      (fun _ n' => InOrder gap none n' ∧ Drops id n n') n := by
  refine wp_mono (wp_of_minds (all_removeJob id) h.noCold
    (QueueCall.wpWith_removeJob h.tracks id)) ?_
  rintro _ n' ⟨⟨⟨htracks, hindex, hgap⟩, hneat⟩, hcold, hsame⟩
  have hlookup : Drops id n n' := by
    intro id'
    change n'.queue.jobToSlot = n.queue.jobToSlot.erase id at hindex
    rw [hindex, Finmap.lookup_erase_ite]
  refine ⟨⟨htracks, hneat h.neat, ?_, hcold, fun id' key hid' _ => ?_, ?_⟩, hlookup⟩
  · rw [show n'.queue.slotGap = n.queue.slotGap from hgap, h.slotGap]
  · rw [hlookup] at hid'
    split_ifs at hid' with hne
    rw [hsame.jobs]
    exact h.live id' key hid' fun heq => hne (hgone id' heq)
  · rw [hsame.jobs]
    exact h.filed

lemma wp_removeSlot (h : InOrder gap none n) {key : ℤ} (hkey : InRange key) :
    wp (handle queueThread) Stable (removeSlot key) (fun _ => InOrder gap none) n := by
  have hquiet : All (Quiet IsSlotCommand) (removeSlot key) := by
    have huntrack : ∀ slot, All (Quiet IsSlotCommand) (untrack slot) := by
      intro slot
      cases slot with
      | none => trivial
      | some slotData =>
        rw [untrack]
        exact all_onIndex _
    exact (Store.all_getSlot trivial trivial).bind fun slot => (huntrack slot).bind fun _ =>
      (all_onWheel _).bind fun _ => Store.all_ifLeader (all_deleteSlot key)
  refine wp_mono (wp_of_minds hquiet h.noCold (wpWith_removeSlot h.tracks hkey)) ?_
  rintro _ n' ⟨⟨htracks, hneat, hgap, hindex⟩, hcold, hsame⟩
  refine ⟨htracks, hneat h.neat, ?_, hcold, fun id' key' hid' _ => ?_, ?_⟩
  · rw [show n'.queue.slotGap = n.queue.slotGap from hgap, h.slotGap]
  · rw [hsame.jobs]
    exact h.live id' key' (hindex id' key' hid') (by simp)
  · rw [hsame.jobs]
    exact h.filed

lemma wp_addJob (h : InOrder gap none n) (hgap : 0 < gap) {job stored : Job}
    (hrange : ∀ timestamp ∈ job.dueTime, InRange timestamp)
    (hfresh : n.queue.jobToSlot.lookup job.id = none)
    (hstored : n.fsm.jobs.lookup job.id = some stored) :
    wp (handle queueThread) Stable (addJob job) (fun _ n' => InOrder gap none n' ∧
      ∀ id, id ≠ job.id → n'.queue.jobToSlot.lookup id = n.queue.jobToSlot.lookup id) n := by
  refine wp_mono (wp_of_minds (all_addJob job) h.noCold
    (QueueCall.wpWith_addJob h.tracks (h.slotGap.symm ▸ hgap) hrange hfresh)) ?_
  rintro _ n' ⟨⟨⟨htracks, hindex, hsameGap⟩, hneat⟩, hcold, hsame⟩
  have hothers : ∀ id, id ≠ job.id →
      n'.queue.jobToSlot.lookup id = n.queue.jobToSlot.lookup id := by
    intro id hid
    change n'.queue.jobToSlot = _ at hindex
    rw [hindex, QueueCall.onPlan]
    cases job.dueTime with
    | none => rfl
    | some timestamp => exact Finmap.lookup_insert_of_ne _ hid
  refine ⟨⟨htracks, hneat h.neat, ?_, hcold, fun id key hkey _ => ?_, ?_⟩, hothers⟩
  · rw [show n'.queue.slotGap = n.queue.slotGap from hsameGap, h.slotGap]
  · rw [hsame.jobs]
    by_cases hid : id = job.id
    · exact ⟨stored, hid ▸ hstored⟩
    · exact h.live id key (hothers id hid ▸ hkey) (by simp)
  · rw [hsame.jobs]
    exact h.filed

lemma wp_createJob (h : InOrder gap none n) (hgap : 0 < gap) {job : Job}
    (hrange : ∀ timestamp ∈ job.dueTime, InRange timestamp)
    (hfresh : n.queue.jobToSlot.lookup job.id = none) :
    wp (handle queueThread) Stable (Store.createJob jobEventHandler job)
      (fun _ n' => InOrder gap none n' ∧
        ∀ id, id ≠ job.id → n'.queue.jobToSlot.lookup id = n.queue.jobToSlot.lookup id) n := by
  refine wp_bind.mpr (Store.wpWith_propose (fun _ _ _ hg => hg) fun e _ => ?_)
  have hjobs : (n.applyCommand queueThread e.faults { type := .createJob, job := some job }).fsm.jobs
      = n.fsm.jobs.insert job.id job.wire := rfl
  have h1 : InOrder gap none
      (n.applyCommand queueThread e.faults { type := .createJob, job := some job }) := by
    refine ⟨h.tracks, h.neat, h.slotGap, h.noCold, fun id key hkey _ => ?_, fun id job' hjob' => ?_⟩
    · rw [hjobs, Finmap.lookup_insert_ite]
      split_ifs
      · exact ⟨job.wire, rfl⟩
      · exact h.live id key hkey (by simp)
    · rw [hjobs, Finmap.lookup_insert_ite] at hjob'
      split_ifs at hjob' with hid
      · rw [← Option.some.inj hjob', hid]
        rfl
      · exact h.filed id job' hjob'
  exact wp_bind.mpr (wpWith_handler (fun _ _ _ hg => hg)
    (h1.wp_addJob hgap hrange hfresh (Finmap.lookup_insert _)))

lemma wp_deleteJob (h : InOrder gap none n) (id : String) :
    wp (handle queueThread) Stable (Store.deleteJob jobEventHandler id)
      (fun _ n' => InOrder gap none n' ∧ Drops id n n') n := by
  refine Store.wpWith_deleteJob (fun _ _ _ hg => hg) fun e _ =>
    wpWith_handler (fun _ _ _ hg => hg) ?_
  -- until the handler has run, the index may have the id of no job
  have h1 : InOrder gap (some id)
      (n.applyCommand queueThread e.faults { type := .deleteJob, id := id }) := by
    have hslots : n.fsm.SameSlots (n.fsm.apply e.faults { type := .deleteJob, id := id }).1 :=
      sameSlots_apply (by simp [Command.LeavesSlots]) n.fsm e.faults
    have hview : (n.applyCommand queueThread e.faults { type := .deleteJob, id := id }).queueView
        = n.queueView := queueView_of_sameSlots hslots rfl
    refine ⟨hview ▸ h.tracks, hview ▸ h.neat, h.slotGap, hslots.coldStore.trans h.noCold,
      fun id' key hkey hne => ?_, fun id' job' hjob' => ?_⟩
    · rw [Node.applyCommand_fsm, lookup_deleteJob_of_ne _ _ fun heq => hne (congrArg some heq.symm)]
      exact h.live id' key hkey (by simp)
    · exact h.filed id' job' (lookup_of_deleteJob hjob')
  rw [getJob]
  cases hjob : n.fsm.jobs.lookup id with
  | none =>
    have hunused := h.lookup_of_unused hjob
    refine ⟨{ h1 with live := fun id' key hkey _ => h1.live id' key hkey ?_ }, fun id' => ?_⟩
    · rintro ⟨⟩
      change n.queue.jobToSlot.lookup id = some key at hkey
      simp [hunused] at hkey
    · show n.queue.jobToSlot.lookup id' = _
      split_ifs with hid
      · rw [hid, hunused]
      · rfl
  | some job =>
    obtain rfl := h.filed id job hjob
    exact h1.wp_removeJob fun id' heq => (Option.some.inj heq).symm

end InOrder

/-! ## Passes -/

/-- An action that leaves jobs, slots and the queue alone. -/
def Sidelined : ∀ β : Type, Act β → Prop
  | _, .raftApply cmd => cmd.LeavesJobs ∧ cmd.LeavesSlots
  | _, .queue _ => False
  | _, _ => True

lemma ExecutionManager.sidelined_execute (em : ExecutionManager) (job : Job) :
    All Sidelined (em.execute job) := by
  have hK : ∀ {β : Type} (a : Act β),
      Detached (fun cmd => cmd.LeavesJobs ∧ cmd.LeavesSlots) β a → Sidelined β a := by
    intro β a ha
    cases a with
    | raftApply cmd => exact ha
    | queue f => exact ha
    | _ => trivial
  have hwebhook : Sidelined _ (.executeWebhook job) := trivial
  exact em.all_execute
    (fun sc _ => ⟨attemptRecord_leavesJobs sc, by simp [Command.LeavesSlots, attemptRecord]⟩) hK
    hwebhook
    fun sc _ => ⟨statusUpdate_leavesJobs sc, by simp [Command.LeavesSlots, statusUpdate]⟩

namespace InOrder

variable {gap : ℤ} {n n' : Node}

lemma wp_execute (h : InOrder gap none n) (em : ExecutionManager) (job : Job) :
    wp (handle queueThread) Stable (em.execute job) (fun _ => InOrder gap none) n := by
  refine (em.sidelined_execute job).invariant (fun a e n' ha _ hn' => ?_) h
  cases a with
  | raftApply cmd =>
    simp only [handle]
    split_ifs
    · have hslots := sameSlots_apply ha.2 n'.fsm e.faults
      exact hn'.of_same (queueView_of_sameSlots hslots rfl) (hslots.coldStore.trans hn'.noCold)
        (sameJobs_apply ha.1 n'.fsm e.faults).jobs
    · exact hn'
  | queue f => exact ha.elim
  | _ => exact hn'.of_same rfl hn'.noCold rfl

/-- A program of the queue that does nothing its view shows. -/
lemma wp_unseen (h : InOrder gap none n) {α : Type} {p : Program Act α}
    (hp : All (Quiet IsSlotCommand) p)
    (hview : wpWith minds p (fun _ v => v = n.queueView) n.queueView) :
    wp (handle queueThread) Stable p (fun _ => InOrder gap none) n := by
  refine wp_mono (wp_of_minds hp h.noCold hview) ?_
  rintro _ n' ⟨hsame, hcold, hjobs⟩
  exact h.of_same hsame hcold hjobs.jobs

lemma wp_peekSlot (h : InOrder gap none n) :
    wp (handle queueThread) Stable peekSlot
      (fun slot n' => InOrder gap none n' ∧ ∀ s, slot = some s → (s.jobs.map Job.id).Nodup) n := by
  refine wp_mono (wpWith_peekSlot n) ?_
  rintro slot n' ⟨hsame, hslot⟩
  refine ⟨hsame ▸ h, fun s hs => ?_⟩
  obtain ⟨tier, key, slotData, hat, hjobs⟩ := hslot s hs
  have hhot : n.fsm.slots.lookup key = some slotData := by
    cases tier with
    | hot => exact hat
    | cold => simp [slotAt, coldCopy_of_none h.noCold] at hat
  have hnodup := h.tracks.nodup key
  rw [jobsAt_of_shown ((getSlot_of_none h.noCold _ _).trans hhot)] at hnodup
  rw [hjobs]
  exact hnodup.sublist (map_id_sublist h.filed _)

/-- The jobs of the next slot have distinct ids. -/
lemma wp_getNextSlot (h : InOrder gap none n) :
    wp (handle queueThread) Stable getNextSlot
      (fun slot n' => InOrder gap none n' ∧ ∀ s, slot = some s → (s.jobs.map Job.id).Nodup) n := by
  refine wp_seq (h.wp_unseen all_ensureInit (wpWith_ensureInit rfl)) ?_
  intro _ n1 h1
  rw [perform_bind, wp_step]
  intro e _
  refine wp_seq (h1.wp_unseen (all_onWheel _) (wpWith_onWheel fun _ => rfl)) ?_
  intro readyKeys n2 h2
  refine wp_seq (wp_forEach readyKeys (fun key _ n' hn' =>
    wp_unseen hn' (all_dropIfDead key) (wpWith_dropIfDead hn'.neat key)) h2) ?_
  exact fun _ n3 h3 => h3.wp_peekSlot

/-! ### The jobs of a slot -/

lemma wp_removeExecuted (h : InOrder gap none n) (id : String) :
    wp (handle queueThread) Stable (Worker.removeExecuted id)
      (fun _ n' => InOrder gap none n' ∧ Drops id n n') n := by
  refine wp_bind.mpr (Store.wpWith_ifLeader (fun _ _ _ hg => hg) (wp_mono (h.wp_deleteJob id) ?_))
  rintro _ n1 ⟨h1, hdrops⟩
  refine wp_mono (h1.wp_removeJob (by simp)) ?_
  rintro _ n2 ⟨h2, hagain⟩
  refine ⟨h2, fun id' => ?_⟩
  rw [hagain id', hdrops id']
  split_ifs
  · rfl
  · rfl

/-- All ids are gone from the index. -/
lemma wp_removeAll (h : InOrder gap none n) (ids : List String) :
    wp (handle queueThread) Stable (forEach ids Worker.removeExecuted)
      (fun _ n' => InOrder gap none n' ∧ ∀ id ∈ ids, n'.queue.jobToSlot.lookup id = none) n := by
  refine wp_mono (wp_forEach_each (P := fun id (n : Node) => n.queue.jobToSlot.lookup id = none) ids
    (fun id _ n' hn' => ?_) h) fun _ _ h' => ⟨h'.1, h'.2.1⟩
  refine wp_mono (wp_removeExecuted hn' id) ?_
  rintro _ n'' ⟨h'', hdrops⟩
  refine ⟨h'', by rw [hdrops id, if_pos rfl], fun id' hid' => ?_⟩
  rw [hdrops id', hid']
  exact ite_self none

end InOrder

/-- What a pass has noted down: the jobs to be created anew have distinct ids, all of them among the
removed, and times in range. -/
structure Round.Sound (round : Round) : Prop where
  nodup : (round.jobsToReschedule.map Job.id).Nodup
  removed : ∀ job ∈ round.jobsToReschedule, job.id ∈ round.jobsToRemove
  inRange : ∀ job ∈ round.jobsToReschedule, ∀ timestamp ∈ job.dueTime, InRange timestamp

namespace Worker

/-- The times that the cron library gives are 64-bit numbers. -/
def CronInRange (w : Worker) : Prop :=
  ∀ expr next, w.cron expr = some next → ∀ now, InRange (next now)

lemma everyMinute_cronInRange : everyMinute.CronInRange := by
  intro expr next hnext now
  obtain rfl := eq_nextMinute hnext
  exact inRange_nextMinute now

variable {w : Worker} {now : ℤ} {round : Round} {jobs : List Job}

lemma CronInRange.calculateNextExecution (h : w.CronInRange) (job : Job) (now : ℤ) :
    InRange (w.calculateNextExecution job now) := by
  have hzero : InRange 0 := by decide
  unfold Worker.calculateNextExecution
  cases hcron : w.cron job.cronExpr with
  | none => exact hzero
  | some next =>
    have hnext := h job.cronExpr next hcron now
    cases job.lastDate with
    | none => exact hnext
    | some lastDate =>
      simp only
      split_ifs
      · exact hzero
      · exact hnext

/-- The jobs of a slot have distinct ids. -/
lemma Noted.sound (h : w.Noted now jobs {} round) (hcron : w.CronInRange)
    (hjobs : (jobs.map Job.id).Nodup) : round.Sound := by
  have hremoved : round.jobsToRemove = jobs.map Job.id := h.removed
  have hrescheduled : round.jobsToReschedule = jobs.filterMap (w.renewed now) := h.rescheduled
  have hids := w.map_id_renewed_sublist now jobs
  constructor
  · rw [hrescheduled]
    exact hjobs.sublist hids
  · intro job hjob
    rw [hrescheduled] at hjob
    rw [hremoved]
    exact hids.subset (List.mem_map_of_mem hjob)
  · intro job hjob
    rw [hrescheduled] at hjob
    obtain ⟨old, -, hold⟩ := List.mem_filterMap.mp hjob
    obtain ⟨htype, -, rfl⟩ := renewed_eq_some hold
    simpa [Job.dueTime, htype] using hcron.calculateNextExecution old now

end Worker

namespace InOrder

variable {gap : ℤ} {n : Node} {w : Worker} {now : ℤ}

/-- Jobs with distinct ids that are not in the index are created one after the other. -/
lemma wp_rescheduleAll (hgap : 0 < gap) {jobs : List Job} (hjobs : (jobs.map Job.id).Nodup)
    (hrange : ∀ job ∈ jobs, ∀ timestamp ∈ job.dueTime, InRange timestamp) (h : InOrder gap none n)
    (hfresh : ∀ job ∈ jobs, n.queue.jobToSlot.lookup job.id = none) :
    wp (handle queueThread) Stable (forEach jobs Worker.reschedule)
      (fun _ => InOrder gap none) n := by
  induction jobs generalizing n with
  | nil => exact h
  | cons job jobs ih =>
    obtain ⟨hfirst, hrest⟩ := List.nodup_cons.mp hjobs
    rw [forEach]
    refine wp_bind.mpr (Store.wpWith_ifLeader (fun _ _ _ hg => hg) (wp_mono
      (h.wp_createJob hgap (hrange job List.mem_cons_self) (hfresh job List.mem_cons_self)) ?_))
    rintro _ n' ⟨hn', hothers⟩
    refine ih hrest (fun job' hjob' => hrange job' (List.mem_cons_of_mem job hjob')) hn' ?_
    intro job' hjob'
    rw [hothers job'.id fun heq => hfirst (heq ▸ List.mem_map_of_mem hjob')]
    exact hfresh job' (List.mem_cons_of_mem job hjob')

lemma wp_processSlot (hgap : 0 < gap) (hcron : w.CronInRange) {slot : Slot}
    (hjobs : (slot.jobs.map Job.id).Nodup) (h : InOrder gap none n) :
    wp (handle queueThread) Stable (w.processSlot now slot) (fun _ => InOrder gap none) n := by
  refine wp_seq (w.wpWith_processJobs now slot.jobs
    (fun job _ _ h' => wp_execute h' w.executionManager job) {} h) ?_
  rintro round n1 ⟨h1, hnoted, -⟩
  have hround : round.Sound := hnoted.sound hcron (hjobs.sublist (List.filter_sublist.map _))
  refine wp_seq (h1.wp_removeAll round.jobsToRemove) ?_
  rintro _ n2 ⟨h2, hgone⟩
  refine wp_seq (wp_rescheduleAll hgap hround.nodup hround.inRange h2
    fun job hjob => hgone job.id (hround.removed job hjob)) ?_
  exact fun _ n3 h3 => h3

lemma wp_processLoop (hgap : 0 < gap) (hcron : w.CronInRange) (left : ℕ) (h : InOrder gap none n) :
    wp (handle queueThread) Stable (w.processLoop now left) (fun _ => InOrder gap none) n :=
  Worker.wpWith_processLoop demonic_mono (fun _ h => wp_getNextSlot h)
    (fun _ _ h hjobs => wp_processSlot hgap hcron hjobs h) left h

lemma wp_processSlots (hgap : 0 < gap) (hcron : w.CronInRange) (h : InOrder gap none n) :
    wp (handle queueThread) Stable w.processSlots (fun _ => InOrder gap none) n := by
  rw [Worker.processSlots, perform_bind, wp_step]
  exact fun e _ => h.wp_processLoop hgap hcron 10

end InOrder

/-! ## Sequences of operations -/

/-- The operations on the jobs and slots of a leader. -/
inductive SlotQueueOp where
  | createJob (job : Job)
  | deleteJob (id : String)
  | removeJob (id : String)
  | removeSlot (key : ℤ)
  /-- A pass of the worker: due jobs are executed, removed and, if they recur, created anew. -/
  | pass

namespace SlotQueueOp

def program (w : Worker) : SlotQueueOp → Program Act Unit
  | createJob job => Store.createJob jobEventHandler job >>= fun _ => pure ()
  | deleteJob id => Store.deleteJob jobEventHandler id >>= fun _ => pure ()
  | removeJob id => PersistentSlotQueue.removeJob id
  | removeSlot key => PersistentSlotQueue.removeSlot key
  | pass => w.processSlots

/-- No job is created whose id is in use; times and keys are 64-bit numbers. -/
def Admissible (op : SlotQueueOp) (_ : ℕ → Env) (n : Node) : Prop :=
  match op with
  | createJob job =>
    n.fsm.jobs.lookup job.id = none ∧ ∀ timestamp ∈ job.dueTime, InRange timestamp
  | removeSlot key => InRange key
  | _ => True

instance (op : SlotQueueOp) (env : ℕ → Env) (n : Node) : Decidable (op.Admissible env n) :=
  match op with
  | createJob job => inferInstanceAs (Decidable (_ ∧ ∀ timestamp ∈ job.dueTime, InRange timestamp))
  | removeSlot key => inferInstanceAs (Decidable (InRange key))
  | deleteJob _ => isTrue trivial
  | removeJob _ => isTrue trivial
  | pass => isTrue trivial

variable {gap : ℤ} {n : Node} {w : Worker}

/-- **One operation.** -/
lemma wp_program (hgap : 0 < gap) (hcron : w.CronInRange) (op : SlotQueueOp) {env : ℕ → Env}
    (hop : op.Admissible env n) (h : InOrder gap none n) :
    wp (handle queueThread) Stable (op.program w) (fun _ => InOrder gap none) n := by
  cases op with
  | createJob job =>
    exact wp_seq (h.wp_createJob hgap hop.2 (h.lookup_of_unused hop.1))
      fun _ _ h' => h'.1
  | deleteJob id => exact wp_seq (h.wp_deleteJob id) fun _ _ h' => h'.1
  | removeJob id => exact wp_mono (h.wp_removeJob (by simp)) fun _ _ h' => h'.1
  | removeSlot key => exact h.wp_removeSlot hop
  | pass => exact h.wp_processSlots hgap hcron

end SlotQueueOp

/-- Every id is at most once in a slot, and where the index says; no slot is empty, and each begins
at its key times the gap. -/
structure Node.IndexAgrees (gap : ℤ) (n : Node) : Prop where
  nodup : ∀ key slot, n.fsm.slots.lookup key = some slot → slot.jobIDs.Nodup
  apart : ∀ key key' slot slot' id, n.fsm.slots.lookup key = some slot →
    n.fsm.slots.lookup key' = some slot' → id ∈ slot.jobIDs → id ∈ slot'.jobIDs → key = key'
  index : ∀ id key, n.queue.jobToSlot.lookup id = some key ↔
    ∃ slot, n.fsm.slots.lookup key = some slot ∧ id ∈ slot.jobIDs
  nonempty : ∀ key slot, n.fsm.slots.lookup key = some slot → slot.jobIDs ≠ []
  minTime : ∀ key slot, n.fsm.slots.lookup key = some slot → slot.minTime = key * gap

lemma InOrder.indexAgrees (h : InOrder gap none n) : n.IndexAgrees gap := by
  have hshown : ∀ {key slot}, n.fsm.slots.lookup key = some slot →
    n.queueView.shown key = some slot :=
    fun hslot => (getSlot_of_none h.noCold _ _).trans hslot
  have hindex : ∀ {key slot id}, n.fsm.slots.lookup key = some slot →
      (id ∈ slot.jobIDs ↔ n.queue.jobToSlot.lookup id = some key) := by
    intro key slot id hslot
    rw [← jobsAt_of_shown (hshown hslot), h.tracks.listed]
    rfl
  refine ⟨fun key slot hslot => ?_, fun key key' slot slot' id hslot hslot' hid hid' => ?_,
    fun id key => ⟨fun hid => ?_, fun ⟨slot, hslot, hid⟩ => (hindex hslot).mp hid⟩,
    fun key slot hslot => (h.neat (hshown hslot)).1, fun key slot hslot => ?_⟩
  · rw [← jobsAt_of_shown (hshown hslot)]
    exact h.tracks.nodup key
  · exact Option.some.inj (((hindex hslot).mp hid).symm.trans ((hindex hslot').mp hid'))
  · have hmem := (h.tracks.listed key id).mpr hid
    cases hslot : n.fsm.slots.lookup key with
    | none =>
      have hnone : n.queueView.shown key = none := (getSlot_of_none h.noCold _ _).trans hslot
      simp [jobsAt, hnone] at hmem
    | some slot => exact ⟨slot, rfl, (hindex hslot).mpr hid⟩
  · rw [(h.neat (hshown hslot)).2, ← h.slotGap]
    rfl

/-- A node that has just started, whose slot gap is a whole number of seconds. -/
lemma InOrder.new (hgap : 1 ≤ gap) (configs : List WheelLevelConfig) :
    InOrder gap none
      { fsm := newFSM, queue := newPersistentSlotQueueWithConfig (gap * 1000000000) configs } := by
  have hgap_ne : gap * 1000000000 ≠ 0 := by omega
  have hshown : ∀ key, newFSM.getSlot key false = none := fun key => by
    simp [newFSM, getSlot_eq]
  refine ⟨⟨?_, ?_, ?_, ?_⟩, ?_, ?_, rfl, ?_, ?_⟩
  · simp [Node.queueView, hshown]
  · simp [jobsAt, Node.queueView, hshown]
  · simp [jobsAt, Node.queueView, hshown, newPersistentSlotQueueWithConfig]
  · simp [Node.queueView, newPersistentSlotQueueWithConfig]
  · intro key slot hslot
    simp [Node.queueView, hshown] at hslot
  · simp only [newPersistentSlotQueueWithConfig, if_neg hgap_ne, seconds]
    exact Int.mul_tdiv_cancel gap (by decide)
  · simp [newPersistentSlotQueueWithConfig]
  · simp [newFSM]

/-- **The index and the slots agree** after every sequence of operations on a stable leader that
starts empty and does not spill, whose slot gap is a whole number of seconds. -/
theorem index_agrees (w : Worker) (hcron : w.CronInRange) (gap : ℤ) (hgap : 1 ≤ gap)
    (configs : List WheelLevelConfig) (ops : List SlotQueueOp) (env : ℕ → Env)
    (henv : ∀ i, (env i).Stable) :
    let n : Node :=
      { fsm := newFSM, queue := newPersistentSlotQueueWithConfig (gap * 1000000000) configs }
    Each (handle queueThread) SlotQueueOp.Admissible (SlotQueueOp.program w) ops env n →
      (run (handle queueThread) (forEach ops (SlotQueueOp.program w)) env n).1.IndexAgrees gap := by
  intro n hops
  have hstart : InOrder gap none n := InOrder.new hgap configs
  refine InOrder.indexAgrees
    (Each.run_of_forall (fun op env' n' henv' hop hn' => ?_) henv hops hstart)
  exact wp_run (op.wp_program (by omega) hcron hop hn') henv'

/-- Three jobs are created; the slot of two of them is removed, one of these is deleted and created
again, the other removed once more.  A pass at second 32 executes what is due: the recurring job is
in slot 6 then. -/
theorem index_agrees_after_pass :
    let configs : List WheelLevelConfig := [⟨10000000000, 6⟩, ⟨60000000000, 4⟩]
    let n : Node :=
      { fsm := newFSM, queue := newPersistentSlotQueueWithConfig (10 * 1000000000) configs }
    (run (handle queueThread) (forEach
      [ .createJob { id := "a", type := .unico, timestamp := some 5 },
        .createJob { id := "b", type := .unico, timestamp := some 7 },
        .createJob { id := "c", type := .recurrente, cronExpr := "* * * * *", createdAt := 31 },
        .removeSlot 0, .deleteJob "a",
        .createJob { id := "a", type := .unico, timestamp := some 32 }, .removeJob "b", .pass ]
      (SlotQueueOp.program everyMinute)) (fun i => calm (if i < 67 then 0 else 32))
      n).1.IndexAgrees 10 :=
  index_agrees everyMinute Worker.everyMinute_cronInRange 10 (by decide) _ _ _ (fun i => ⟨rfl, rfl⟩)
    (by decide +kernel)

end ScheduledDb
