import ScheduledDb.Slots.DueSlots

/-!
# Becoming leader

A node's queue is its own memory; slots and jobs are replicated.  `becomeLeader` of
`internal/app.go` starts the worker and the slot evictor and does nothing else: what the new leader
knows of the slots is what its queue happened to hold.  `LoadJobs`, which would fill the queue from
the store, is not called anywhere.

`becomeLeader_covers_iff` says what that means for the jobs accepted under an earlier leader, and
that `LoadJobs` would do.
-/

namespace ScheduledDb

open Machine Program

/-- A node with the parts that a change of leadership starts and stops. -/
structure App where
  node : Node
  workerRunning : Bool
  /-- `none` without cold spilling. -/
  evictorRunning : Option Bool

namespace App

/-- `Start()` of the worker and of the evictor: nothing if it runs already. -/
def start (running : Bool) : Bool := if running then running else true

/-- `Stop()` -/
def stop (running : Bool) : Bool := if running then false else running

def becomeLeader (a : App) : App :=
  { a with
    workerRunning := start a.workerRunning
    evictorRunning := a.evictorRunning.map start }

def loseLeadership (a : App) : App :=
  { a with
    workerRunning := stop a.workerRunning
    evictorRunning := a.evictorRunning.map stop }

end App

namespace PersistentSlotQueue

/-- The wheel holds the slot's key and the index every job in it. -/
def Tracks (q : PersistentSlotQueue) (key : ℤ) (slotData : SlotData) : Prop :=
  q.wheel.Holds key ∧ ∀ jobID ∈ slotData.jobIDs, (q.jobToSlot.lookup jobID).isSome = true

/-- The queue knows all slots with jobs, so that the worker can get at them. -/
def Covers (n : Node) : Prop :=
  ∀ key slotData, n.fsm.getSlot key false = some slotData → slotData.jobIDs ≠ [] →
    n.queue.Tracks key slotData

/-! ## `LoadJobs` -/

/-- Entering ids into the index keeps what is there and adds them. -/
lemma isSome_lookup_foldl_insert (key : ℤ) (ids : List String) :
    ∀ (m : Finmap fun _ : String => ℤ) (jobID : String),
      ((ids.foldl (fun m id => m.insert id key) m).lookup jobID).isSome = true
        ↔ (m.lookup jobID).isSome = true ∨ jobID ∈ ids := by
  induction ids with
  | nil =>
    intro m jobID
    simp
  | cons id ids ih =>
    intro m jobID
    rw [List.foldl_cons, ih, Finmap.lookup_insert_ite, List.mem_cons]
    by_cases hid : jobID = id
    · simp [hid]
    · simp [hid]

variable {thread : ℕ} {f : FSM} {n : Node} {ok : Env → Prop}

/-- What `LoadJobs` keeps while it runs: the store, and a wheel that can take keys. -/
def Loading (f : FSM) (n : Node) : Prop := n.fsm = f ∧ n.queue.wheel.WellFormed

/-- Tracking a slot tracks it, and no other slot is lost. -/
lemma trackSlot_tracks (h : Loading f n) (key : ℤ) (slotData : SlotData) :
    wp (handle thread) ok (trackSlot key slotData)
      (fun _ n' => Loading f n' ∧ n'.queue.Tracks key slotData ∧
        ∀ key' slotData', n.queue.Tracks key' slotData' → n'.queue.Tracks key' slotData') n := by
  obtain ⟨hwf, hholds⟩ := HierarchicalTimingWheel.add_keeps h.2 key
  intro e _ e' _
  refine ⟨⟨h.1, hwf⟩, ⟨(hholds key).mpr (Or.inr rfl), fun jobID hid => ?_⟩, ?_⟩
  · exact (isSome_lookup_foldl_insert key _ _ jobID).mpr (Or.inr hid)
  · rintro key' slotData' ⟨hkey', hids'⟩
    refine ⟨(hholds key').mpr (Or.inl hkey'), fun jobID hid => ?_⟩
    exact (isSome_lookup_foldl_insert key _ _ jobID).mpr (Or.inl (hids' jobID hid))

/-- What is tracked of the cold slot `key`, in the loop over the cold slots. -/
def TracksCold (f : FSM) (key : ℤ) (n : Node) : Prop :=
  ∀ slotData, (f.coldStore.bind fun c => c.lookup key) = some slotData →
    n.queue.Tracks key slotData

lemma trackColdSlot_tracks (h : Loading f n) (key : ℤ) :
    wp (handle thread) ReadsColdStore (trackColdSlot key)
      (fun _ n' => Loading f n' ∧ TracksCold f key n' ∧
        ∀ key' slotData', n.queue.Tracks key' slotData' → n'.queue.Tracks key' slotData') n := by
  rw [trackColdSlot, perform_bind, wp_step]
  intro e he
  have hread : handle thread _ (.getColdSlotData key) e n
      = (n, f.coldStore.map fun c => c.lookup key) := by
    rw [← h.1]
    simp only [handle]
    rw [he]
    rfl
  rw [hread]
  cases hcold : f.coldStore with
  | none => exact ⟨h, by simp [TracksCold, hcold], fun _ _ hk => hk⟩
  | some c =>
    cases hslot : c.lookup key with
    | none => simpa [hslot, TracksCold, hcold] using h
    | some slotData =>
      simp only [Option.map_some, hslot]
      refine wp_mono (trackSlot_tracks h key slotData) ?_
      rintro _ n' ⟨hload, htracks, hkeep⟩
      refine ⟨hload, fun slotData' hs => ?_, hkeep⟩
      obtain rfl : slotData = slotData' := by simpa [hcold, hslot] using hs
      exact htracks

/-- The loop over the slots in memory. -/
lemma trackSlots_tracks (h : Loading f n) (slots : List (Σ _ : ℤ, SlotData)) :
    wp (handle thread) ok (forEach slots fun slot => trackSlot slot.1 slot.2)
      (fun _ n' => Loading f n' ∧ ∀ slot ∈ slots, n'.queue.Tracks slot.1 slot.2) n := by
  refine wp_mono (wp_forEach_each (P := fun slot n => n.queue.Tracks slot.1 slot.2) slots
    (fun slot _ s hs => ?_) h) fun _ _ hn => ⟨hn.1, hn.2.1⟩
  refine wp_mono (trackSlot_tracks hs slot.1 slot.2) fun _ _ hn => ⟨hn.1, hn.2.1, fun y hy => ?_⟩
  exact hn.2.2 y.1 y.2 hy

/-- The loop over the cold slots, which keeps what the first loop has tracked. -/
lemma trackColdSlots_tracks (slots : List (Σ _ : ℤ, SlotData))
    (h : Loading f n ∧ ∀ slot ∈ slots, n.queue.Tracks slot.1 slot.2) (keys : List ℤ) :
    wp (handle thread) ReadsColdStore (forEach keys trackColdSlot)
      (fun _ n' => (Loading f n' ∧ ∀ slot ∈ slots, n'.queue.Tracks slot.1 slot.2) ∧
        ∀ key ∈ keys, TracksCold f key n') n := by
  refine wp_mono (wp_forEach_each (P := fun key n => TracksCold f key n) keys
    (fun key _ s hs => ?_) h) fun _ _ hn => ⟨hn.1, hn.2.1⟩
  refine wp_mono (trackColdSlot_tracks hs.1 key) fun _ n' hn => ?_
  refine ⟨⟨hn.1, fun slot hslot => hn.2.2 _ _ (hs.2 slot hslot)⟩, hn.2.1, fun key' hk' => ?_⟩
  exact fun slotData hslot => hn.2.2 _ _ (hk' slotData hslot)

/-- Tracking all slots in memory and all cold slots is enough. -/
lemma covers_of_tracks (hf : n.fsm = f)
    (hhot : ∀ key slotData, f.slots.lookup key = some slotData → n.queue.Tracks key slotData)
    (hcold : ∀ key ∈ f.coldSlotMeta, TracksCold f key n) : Covers n := by
  subst hf
  intro key slotData hslot _
  rw [FSM.getSlot_eq] at hslot
  rcases Option.or_eq_some_iff.mp hslot with hlookup | ⟨-, hcopy⟩
  · exact hhot key slotData hlookup
  · split_ifs at hcopy with hmem
    exact hcold key hmem.1 slotData hcopy

/-- **`LoadJobs` covers the store.** -/
theorem loadJobs_covers (hwf : n.queue.wheel.WellFormed) :
    wp (handle thread) ReadsColdStore loadJobs (fun _ => Covers) n := by
  simp only [loadJobs, onIndex, onWheel, perform_bind, wp_step, wp_bind, wp_ite]
  intro e1 _ e2 _ e3 _ e4 _ e5 _
  have hload : Loading n.fsm
      { n with
        queue := { n.queue with
          jobToSlot := ∅
          wheel := n.queue.wheel.reset.init e3.now } } := ⟨rfl, hwf.reset.init e3.now⟩
  refine wp_mono (trackSlots_tracks hload (e5.order _ n.fsm.slots.sortedEntries)) ?_
  rintro _ n' ⟨hload', hhot⟩ e6 _
  have hhot' : ∀ n'' : Node, (∀ slot ∈ e5.order _ n.fsm.slots.sortedEntries,
      n''.queue.Tracks slot.1 slot.2) → ∀ key slotData, n.fsm.slots.lookup key = some slotData →
      n''.queue.Tracks key slotData := fun n'' h key slotData hl =>
    h ⟨key, slotData⟩ ((e5.order_perm _ _).mem_iff.mpr
      ((n.fsm.slots.mem_sortedEntries key slotData).mpr hl))
  refine ⟨fun _ e7 _ => ?_, fun hoff => ?_⟩
  · refine wp_mono (trackColdSlots_tracks _ ⟨hload', hhot⟩ _) fun _ n'' hn => ?_
    refine covers_of_tracks hn.1.1.1 (hhot' n'' hn.1.2) fun key hkey => hn.2 key ?_
    simp only [handle]
    rw [(e7.order_perm _ _).mem_iff, Multiset.mem_sortedList, hload'.1]
    exact hkey
  · refine covers_of_tracks hload'.1 (hhot' n' hhot) fun key _ slotData hslot => ?_
    have hnone : n.fsm.coldStore = none := by
      have hoff' : ¬ n'.fsm.coldStore.isSome = true := hoff
      rw [hload'.1] at hoff'
      simpa using hoff'
    simp [hnone] at hslot

end PersistentSlotQueue

namespace App

open PersistentSlotQueue

/-- A queue that holds nothing. -/
def Fresh (q : PersistentSlotQueue) : Prop := q.jobToSlot = ∅ ∧ ∀ key, ¬ q.wheel.Holds key

/-- **What a new leader covers.**  What its queue covered before: for a queue that holds nothing, all
slots only if no slot has jobs.  After `LoadJobs` it would cover every slot. -/
theorem becomeLeader_covers_iff (a : App) :
    (Covers (becomeLeader a).node ↔ Covers a.node) ∧
      (Fresh a.node.queue → (Covers (becomeLeader a).node ↔ ∀ key, ¬ a.node.fsm.Live key)) ∧
      (a.node.queue.wheel.WellFormed → ∀ (thread : ℕ) (env : ℕ → Env),
        (∀ i, ReadsColdStore (env i)) →
        Covers (becomeLeader
          { a with node := (run (handle thread) loadJobs env a.node).1 }).node) := by
  refine ⟨Iff.rfl, fun hfresh => ?_, fun hwf thread env hread => ?_⟩
  · change Covers a.node ↔ _
    constructor
    · rintro hcovers key ⟨slotData, hslot, hne⟩
      exact hfresh.2 key (hcovers key slotData hslot hne).1
    · intro hdead key slotData hslot hne
      exact absurd ⟨slotData, hslot, hne⟩ (hdead key)
  · exact wp_run (loadJobs_covers hwf) hread

/-- A leader that loads its queue from the store covers the job it has accepted. -/
theorem becomeLeader_covers_after_loadJobs :
    waitingNode.queue.wheel.WellFormed ∧
      Covers (becomeLeader
        { node := (run (handle 0) loadJobs (fun _ => Env.calm 0) waitingNode).1
          workerRunning := false
          evictorRunning := none }).node :=
  ⟨waitingNode_valid.wheel,
    (becomeLeader_covers_iff
      { node := waitingNode, workerRunning := false, evictorRunning := none }).2.2
      waitingNode_valid.wheel 0 (fun _ => Env.calm 0) fun _ => rfl⟩

/-- A follower to which the slots have been replicated. -/
def follower : App where
  node :=
    { fsm := waitingNode.fsm
      queue := newPersistentSlotQueueWithConfig defaultSlotGap
        [⟨10000000000, 6⟩, ⟨60000000000, 4⟩] }
  workerRunning := false
  evictorRunning := none

/-- **An unreachable job**: the new leader's worker runs, and its wheel does not know the slot. -/
theorem becomeLeader_misses_replicated_slot :
    (becomeLeader follower).workerRunning = true ∧ follower.node.fsm.Live 0 ∧
      ¬ (becomeLeader follower).node.queue.wheel.Holds 0 ∧ ¬ Covers (becomeLeader follower).node := by
  have hslot : follower.node.fsm.getSlot 0 false = some ⟨0, 0, 9, ["a"]⟩ := by decide +kernel
  have hnot : ¬ (becomeLeader follower).node.queue.wheel.Holds 0 := by decide +kernel
  refine ⟨rfl, ⟨_, hslot, by decide⟩, hnot, fun hcovers => ?_⟩
  exact hnot (hcovers 0 _ hslot (by decide)).1

end App

end ScheduledDb
