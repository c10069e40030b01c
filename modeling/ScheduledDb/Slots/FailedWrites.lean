import ScheduledDb.Slots.Removal
import ScheduledDb.Slots.TimingWheel.Conservation

/-!
# Slot writes that fail

`AddJob` and `RemoveJob` change three things: the slot in the store, the index of the queue and the
wheel.  Only the first can fail, or is skipped on a node that does not lead, and the other two are
changed all the same: nothing looks at the outcome of the write.

* `AddJob` leaves what was there only if the queue has the job already (`run_addJob`).
* `RemoveJob` drops the index entry, and the key of a slot that gets empty.  If its write goes
  through, the job may still be listed under another key than that of the index, twice in the slot,
  or in a cold copy (`FSM.unlisted_iff`).

`untouched_iff` says for every environment when the queue follows the store, and
`queue_ahead_of_store` shows what is left behind on a follower, and on a leader whose commits fail.
-/

namespace ScheduledDb

open Machine Program PersistentSlotQueue HierarchicalTimingWheel FSM Store

/-- The job is listed under a key, in either tier. -/
def FSM.ListsUnder (f : FSM) (key : ℤ) (id : String) : Prop := ∃ tier, f.ListsIn tier key id

/-! ## The queue after `AddJob` -/

namespace PersistentSlotQueue

/-- The queue with one more job, and a clock that was started at `now` if it did not run. -/
def tracking (q : PersistentSlotQueue) (now : ℤ) (id : String) (key : ℤ) : PersistentSlotQueue :=
  { q with jobToSlot := q.jobToSlot.insert id key, wheel := (q.wheel.init now).add key }

/-- The queue has the job under this key, and adding the key again changes nothing. -/
def HasAlready (q : PersistentSlotQueue) (id : String) (key : ℤ) : Prop :=
  q.jobToSlot.lookup id = some key ∧ q.wheel.initialized = true ∧ q.wheel.add key = q.wheel

lemma insert_eq_self_iff {m : Finmap fun _ : String => ℤ} {id : String} {key : ℤ} :
    m.insert id key = m ↔ m.lookup id = some key := by
  constructor
  · intro hinsert
    rw [← hinsert, Finmap.lookup_insert]
  · intro hlookup
    refine Finmap.ext_lookup fun id' => ?_
    rw [Finmap.lookup_insert_ite]
    split_ifs with hid
    · rw [hid, hlookup]
    · rfl

lemma initialized_add (w : HierarchicalTimingWheel) (key : ℤ) : (w.add key).initialized = true := by
  simp only [add]
  split_ifs with hrun
  · split
    · exact hrun
    · exact hrun
  · split
    · rfl
    · rfl

lemma tracking_eq_self_iff {q : PersistentSlotQueue} {now : ℤ} {id : String} {key : ℤ} :
    q.tracking now id key = q ↔ q.HasAlready id key := by
  constructor
  · intro hsame
    have hindex : q.jobToSlot.insert id key = q.jobToSlot := congrArg jobToSlot hsame
    have hwheel : (q.wheel.init now).add key = q.wheel := congrArg wheel hsame
    have hrun : q.wheel.initialized = true := by
      rw [← hwheel]
      exact initialized_add _ key
    rw [init, if_pos hrun] at hwheel
    exact ⟨insert_eq_self_iff.mp hindex, hrun, hwheel⟩
  · rintro ⟨hindex, hrun, hwheel⟩
    rw [tracking, insert_eq_self_iff.mpr hindex, init, if_pos hrun, hwheel]

end PersistentSlotQueue

/-! ## The store after `RemoveJob` -/

namespace FSM

variable {f : FSM} {key : ℤ} {id : String}

/-- The job is listed under this key only.  If other entries stay in the slot, it is not among them,
and a cold copy does not list it. -/
structure Forgettable (f : FSM) (key : ℤ) (id : String) : Prop where
  only : ∀ key', f.ListsUnder key' id → key' = key
  rest : ∀ slot ∈ f.getSlot key false, (without slot id).jobIDs ≠ [] →
    id ∉ (without slot id).jobIDs ∧ ¬ f.ListsIn .cold key id

/-- What is found although the cold store cannot be read is found. -/
lemma getSlot_false {readFails : Bool} {slot : SlotData} (h : f.getSlot key readFails = some slot) :
    f.getSlot key false = some slot := by
  cases readFails with
  | false => exact h
  | true => simpa [getSlot_eq] using Or.inl (by simpa [getSlot_eq] using h)

/-- **When the job is in no slot any more**, after the slot of its index entry was written back. -/
lemma unlisted_iff (hfiled : f.Filed) (hkeys : f.KeysInRange) {slot : SlotData}
    (hslot : f.getSlot key false = some slot) (faults : ColdFaults) :
    (∀ key', ¬ (f.shrunk faults key (without slot id)).ListsUnder key' id) ↔
      f.Forgettable key id := by
  obtain ⟨tier₀, hat⟩ := exists_slotAt_of_getSlot hslot
  have hsame : ∀ slot' ∈ f.getSlot key false, slot' = slot := fun slot' hslot' =>
    Option.some.inj ((Option.mem_def.mp hslot').symm.trans hslot)
  by_cases hempty : (without slot id).jobIDs = []
  · have hlists := listsIn_shrunk_nil (f := f) faults (hkeys _ _ _ hat) hempty
    constructor
    · intro hgone
      refine ⟨fun key' hid => ?_, fun slot' hslot' hne => ?_⟩
      · obtain ⟨tier, hid⟩ := hid
        by_contra hne
        exact hgone key' ⟨tier, (hlists tier key' id).mpr ⟨hne, hid⟩⟩
      · obtain rfl := hsame slot' hslot'
        exact absurd hempty hne
    · rintro hforget key' ⟨tier, hid⟩
      obtain ⟨hne, hid⟩ := (hlists tier key' id).mp hid
      exact hne (hforget.only key' ⟨tier, hid⟩)
  · have hkey : (without slot id).key = key := (hfiled.slotAt hat : slot.key = key)
    have hlists := listsIn_shrunk_cons (f := f) faults hkey hempty
    constructor
    · intro hgone
      have hgone' : ∀ tier key', ¬ if tier = .hot ∧ key' = key then id ∈ (without slot id).jobIDs
          else f.ListsIn tier key' id :=
        fun tier key' hid => hgone key' ⟨tier, (hlists tier key' id).mpr hid⟩
      refine ⟨fun key' hid => ?_, fun slot' hslot' _ => ?_⟩
      · obtain ⟨tier, hid⟩ := hid
        by_contra hne
        exact hgone' tier key' (by rwa [if_neg fun h => hne h.2])
      · obtain rfl := hsame slot' hslot'
        exact ⟨by simpa using hgone' .hot key, by simpa using hgone' .cold key⟩
    · rintro hforget key' ⟨tier, hid⟩
      obtain ⟨hrest, hcold⟩ := hforget.rest slot hslot hempty
      rw [hlists] at hid
      split_ifs at hid with hhere
      · exact hrest hid
      · obtain rfl := hforget.only key' ⟨tier, hid⟩
        cases tier with
        | hot => exact hhere ⟨rfl, rfl⟩
        | cold => exact hcold hid

end FSM

/-! ## The one write of a call -/

namespace PersistentSlotQueue

variable {n : Node} {env : ℕ → Env} {id : String} {i start : ℕ} {t key : ℤ} {job : Job}
  {c : Finmap fun _ : ℤ => SlotData} {slot : SlotData}

/-- A slot write whose steps start at the given place goes through: the node leads when the queue
asks and when the store asks, and the command is applied. -/
def writes (env : ℕ → Env) (i : ℕ) : Bool :=
  (env i).leader && (env (i + 1)).leader && (env (i + 2)).applies

lemma writes_shift {env later : ℕ → Env} (h : ∀ j, later j = env (i + j)) :
    writes later 0 = writes env i := by
  simp [writes, h]

lemma run_ifLeader_propose (env : ℕ → Env) (cmd : Command) (n : Node) :
    (run (handle 0) (ifLeader (propose cmd)) env n).1
      = if writes env 0 then n.applyCommand 0 (env 2).faults cmd else n := by
  cases h0 : (env 0).leader with
  | false => simp [ifLeader, handle, writes, h0]
  | true =>
    cases h1 : (env 1).leader with
    | false => simp [ifLeader, propose, handle, writes, h0, h1]
    | true =>
      cases h2 : (env 2).commit with
      | ok | error message applied =>
        simp [ifLeader, propose, raftApply, handle, writes, h0, h1, h2,
          Env.applies]

/-- What is left of the store and the queue when a slot has been written back. -/
lemma run_shrinkSlot (env : ℕ → Env) (key : ℤ) (slot : SlotData) (n : Node) :
    let n' := (run (handle 0) (shrinkSlot key slot) env n).1
    n'.fsm = (if writes env 0 then n.fsm.shrunk (env 2).faults key slot else n.fsm) ∧
      n'.queue = if slot.jobIDs = [] then { n.queue with wheel := n.queue.wheel.remove key }
        else n.queue := by
  have hwrite : ∀ cmd, cmd = shrinkCommand key slot →
      (run (handle 0) (ifLeader (propose cmd)) env n).1.fsm
          = (if writes env 0 then n.fsm.shrunk (env 2).faults key slot else n.fsm) ∧
        (run (handle 0) (ifLeader (propose cmd)) env n).1.queue = n.queue := by
    rintro cmd rfl
    rw [run_ifLeader_propose]
    split_ifs
    · exact ⟨rfl, rfl⟩
    · exact ⟨rfl, rfl⟩
  by_cases hempty : slot.jobIDs = []
  · obtain ⟨hfsm, hqueue⟩ := hwrite { type := .deleteSlot, id := printKey key } (if_pos hempty).symm
    simp only [shrinkSlot, if_pos hempty, run_bind]
    refine ⟨hfsm, ?_⟩
    rw [← hqueue]
    rfl
  · simp only [shrinkSlot, if_neg hempty]
    exact hwrite { type := .createSlot, slot := some slot } (if_neg hempty).symm

/-- `GetSlot` takes a second step if the slot is cold. -/
def secondStep (f : FSM) (key : ℤ) : ℕ :=
  if (f.lookupSlot key).1 = none ∧ (f.lookupSlot key).2 = true then 1 else 0

lemma run_getSlot (env : ℕ → Env) (key : ℤ) (n : Node) :
    run (handle 0) (getSlot key) env n
      = (n, n.fsm.getSlot key (env (secondStep n.fsm key)).faults.get.isSome,
          fun i => env (i + (1 + secondStep n.fsm key))) := by
  rw [Store.getSlot_eq, run_step, secondStep]
  change run (handle 0) (if (n.fsm.lookupSlot key).1 = none ∧ (n.fsm.lookupSlot key).2 = true
    then _ else _) _ n = _
  split_ifs with hcold
  · rw [getSlot_of_cold hcold]
    rfl
  · rw [getSlot_of_not_cold hcold]
    rfl

/-! ## The queue and the store after `AddJob` -/

/-- Where the write of `AddJob` starts: a wheel that does not run yet is started first. -/
def addStart (n : Node) (key : ℤ) : ℕ :=
  (if n.queue.wheel.initialized then 3 else 5) + secondStep n.fsm key

/-- A wheel that runs already is left as it is, which is what `Init` would do. -/
lemma run_ensureInit (env : ℕ → Env) (n : Node) :
    run (handle 0) ensureInit env n
      = ({ n with queue.wheel := n.queue.wheel.init (env 1).now }, (),
          fun i => env (i + if n.queue.wheel.initialized then 1 else 3)) := by
  cases hrun : n.queue.wheel.initialized with
  | true => simp [ensureInit, onWheel, handle, hrun, init]
  | false =>
    simp only [ensureInit, onWheel, perform_bind, run_step, handle, hrun]
    rfl

/-- The last steps of `AddJob`: the slot is written, if it can be, and then the job is noted down. -/
lemma run_write_track (env : ℕ → Env) (n : Node) (slot : SlotData) (id : String) (key : ℤ) :
    let n' := (run (handle 0) (ifLeader (createSlot slot) >>= fun _ =>
      (onIndex fun m => (m.insert id key, ())) >>= fun _ => wheelAdd key) env n).1
    n'.queue = { n.queue with jobToSlot := n.queue.jobToSlot.insert id key
                              wheel := n.queue.wheel.add key } ∧
      n'.fsm = if writes env 0 then
          (n.fsm.apply (env 2).faults { type := .createSlot, slot := some slot }).1
        else n.fsm := by
  simp only [run_bind, createSlot, run_ifLeader_propose]
  split_ifs
  · exact ⟨rfl, rfl⟩
  · exact ⟨rfl, rfl⟩

/-- **What `AddJob` leaves**: a queue with the job, whatever becomes of the write, and a slot with it
if the write goes through. -/
lemma run_addJob (env : ℕ → Env) (hdue : job.dueTime = some t) :
    let gap := seconds n.queue.slotGap
    let n' := (run (handle 0) (addJob job) env n).1
    (∃ now, n'.queue = n.queue.tracking now job.id (t.tdiv gap)) ∧
      ∃ readFails faults, n'.fsm = if writes env (addStart n (t.tdiv gap)) then
          (n.fsm.apply faults { type := .createSlot
                                slot := some (extendSlot (n.fsm.getSlot (t.tdiv gap) readFails)
                                  (t.tdiv gap) gap job.id) }).1
        else n.fsm := by
  intro gap
  rw [addJob, hdue]
  simp only [slotGapSeconds, perform_bind, run_step]
  change (∃ now, (run (handle 0) (ensureInit >>= _) _ n).1.queue = _) ∧
    ∃ readFails faults, (run (handle 0) (ensureInit >>= _) _ n).1.fsm = _
  rw [run_bind, run_ensureInit, run_bind, run_getSlot]
  let started : ℕ := if n.queue.wheel.initialized then 1 else 3
  obtain ⟨hqueue, hfsm⟩ := run_write_track
    (fun i => env (i + (1 + secondStep n.fsm (t.tdiv gap)) + started + 1))
    { n with queue.wheel := n.queue.wheel.init (env 2).now }
    (extendSlot (n.fsm.getSlot (t.tdiv gap)
      (env (secondStep n.fsm (t.tdiv gap) + started + 1)).faults.get.isSome) (t.tdiv gap) gap job.id)
    job.id (t.tdiv gap)
  have hstart : ∀ j, j + (1 + secondStep n.fsm (t.tdiv gap)) + started + 1
      = addStart n (t.tdiv gap) + j := by
    intro j
    simp only [addStart, started]
    split_ifs
    · omega
    · omega
  rw [writes_shift fun j => congrArg env (hstart j)] at hfsm
  exact ⟨⟨_, hqueue⟩, _, _, hfsm⟩

/-- **When the job is listed after `AddJob`.** -/
lemma listed_addJob_iff (hfiled : n.fsm.Filed) (env : ℕ → Env) (hdue : job.dueTime = some t) :
    let key := t.tdiv (seconds n.queue.slotGap)
    (run (handle 0) (addJob job) env n).1.fsm.ListsUnder key job.id ↔
      writes env (addStart n key) = true ∨ n.fsm.ListsUnder key job.id := by
  intro key
  obtain ⟨-, readFails, faults, hfsm⟩ := run_addJob (n := n) env hdue
  rw [hfsm]
  split_ifs with hwrites
  · refine iff_of_true ⟨.hot, extendSlot (n.fsm.getSlot key readFails) key
      (seconds n.queue.slotGap) job.id, ?_, mem_extendSlot _ _ _ _⟩ (Or.inl hwrites)
    rw [effect_createSlot]
    simp only [slotAt, Effect.act]
    rw [extendSlot_key hfiled, Finmap.lookup_insert]
    rfl
  · exact (or_iff_right hwrites).symm

/-! ## The search of `RemoveJob` -/

/-- The cold slot that the search for a job ends at: its key, what was read there, and where the next
step is.  The first of the keys is read at step `i`. -/
def coldHit (c : Finmap fun _ : ℤ => SlotData) (id : String) (env : ℕ → Env) : ℕ → List ℤ →
    Option (ℤ × SlotData × ℕ)
  | _, [] => none
  | i, key :: rest =>
    let read := if (env i).faults.get.isSome then none else c.lookup key
    match read.filter fun slot => id ∈ slot.jobIDs with
    | some slot => some (key, slot, i + 1)
    | none => coldHit c id env (i + 1) rest

/-- The slot that the search for a job without index entry ends at: a cold one that can be read, or,
without one, the first in memory. -/
def searched (f : FSM) (id : String) (env : ℕ → Env) : Option (ℤ × SlotData × ℕ) :=
  let hot := ((env 2).order _ f.slots.sortedEntries).find? fun slot => id ∈ slot.2.jobIDs
  match f.coldStore with
  | none => hot.map fun slot => (slot.1, slot.2, 3)
  | some c =>
    let keys := (env 3).order _ f.coldSlotMeta.val.sortedList
    (coldHit c id env 4 keys).or (hot.map fun slot => (slot.1, slot.2, 4 + keys.length))

/-- The node after the job was taken out of the slot that was found, if one was. -/
def found (n : Node) (id : String) (env : ℕ → Env) : Option (ℤ × SlotData × ℕ) → Node
  | none => n
  | some (key, slot, start) =>
    (run (handle 0) (removeFound id key slot) (fun i => env (i + start)) n).1

lemma run_removeFromHot (env : ℕ → Env) (start : ℕ) (slots : List (Σ _ : ℤ, SlotData)) :
    (run (handle 0) (removeFromHot id slots) (fun i => env (i + start)) n).1
      = found n id env ((slots.find? fun slot => id ∈ slot.2.jobIDs).map
          fun slot => (slot.1, slot.2, start)) := by
  induction slots with
  | nil => rfl
  | cons x rest ih =>
    rw [removeFromHot]
    split_ifs with hid
    · rw [List.find?_cons_of_pos (by simpa using hid)]
      rfl
    · rw [List.find?_cons_of_neg (by simpa using hid), ih]

lemma run_removeFromCold (hstore : n.fsm.coldStore = some c) (hot : Program Act Unit)
    (env : ℕ → Env) (start : ℕ) (keys : List ℤ) :
    (run (handle 0) (removeFromCold id hot keys) (fun i => env (i + start)) n).1
      = match coldHit c id env start keys with
        | some hit => found n id env (some hit)
        | none => (run (handle 0) hot (fun i => env (i + (start + keys.length))) n).1 := by
  induction keys generalizing start with
  | nil => rfl
  | cons key rest ih =>
    rw [removeFromCold, perform_bind, run_step, coldHit]
    have hread : (handle 0 _ (.getColdSlotData key) (env (0 + start)) n)
        = (n, if (env start).faults.get.isSome then none else some (c.lookup key)) := by
      simp [handle, hstore]
    have hshift : (fun i => env (i + 1 + start)) = fun i => env (i + (start + 1)) := by
      funext i
      rw [Nat.add_right_comm, Nat.add_assoc]
    have hlength : start + (key :: rest).length = start + 1 + rest.length := by
      rw [List.length_cons]
      omega
    rw [hread, hshift, hlength]
    by_cases hfails : (env start).faults.get.isSome
    · simpa only [if_pos hfails, Option.filter_none] using ih (start + 1)
    · simp only [if_neg hfails]
      cases hslot : c.lookup key with
      | none => exact ih (start + 1)
      | some slot =>
        by_cases hid : id ∈ slot.jobIDs
        · simp [hid, found, Option.filter]
        · simpa [hid, Option.filter] using ih (start + 1)

/-- Where the search ends, there the slot is written back. -/
lemma run_removeJobFallback (env : ℕ → Env) :
    (run (handle 0) (removeJobFallback id) (fun i => env (i + 1)) n).1
      = found n id env (searched n.fsm id env) := by
  rw [removeJobFallback, searched]
  simp only [perform_bind, run_step]
  cases hstore : n.fsm.coldStore with
  | none =>
    simp only [handle, hstore, Option.isSome_none, Bool.false_eq_true, if_false, run_step]
    exact run_removeFromHot env 3 _
  | some c =>
    simp only [handle, hstore, Option.isSome_some, if_true, run_step]
    refine (run_removeFromCold hstore _ env 4 _).trans ?_
    cases hhit : coldHit c id env 4 ((env 3).order _ n.fsm.coldSlotMeta.val.sortedList) with
    | some hit => rfl
    | none => exact run_removeFromHot env _ _

/-- What the search has found is listed. -/
lemma listsUnder_of_coldHit (hstore : n.fsm.coldStore = some c) {keys : List ℤ}
    (hkeys : ∀ key ∈ keys, key ∈ n.fsm.coldSlotMeta)
    (h : coldHit c id env i keys = some (key, slot, start)) :
    n.fsm.slotAt .cold key = some slot ∧ id ∈ slot.jobIDs := by
  induction keys generalizing i with
  | nil => cases h
  | cons key' rest ih =>
    rw [coldHit] at h
    split at h
    · next slot' hfilter =>
        obtain ⟨rfl, rfl, -⟩ : key' = key ∧ slot' = slot ∧ i + 1 = start := by simpa using h
        obtain ⟨hread, hid⟩ := Option.filter_eq_some_iff.mp hfilter
        split_ifs at hread
        refine ⟨?_, by simpa using hid⟩
        rw [← hread]
        exact (if_pos (hkeys key' List.mem_cons_self)).trans (by rw [coldCopy, hstore]; rfl)
    · exact ih (fun key hkey => hkeys key (List.mem_cons_of_mem _ hkey)) h

lemma slotAt_of_searched (h : searched n.fsm id env = some (key, slot, start)) :
    ∃ tier, n.fsm.slotAt tier key = some slot ∧ id ∈ slot.jobIDs := by
  have hhot : ∀ start', (((env 2).order _ n.fsm.slots.sortedEntries).find? fun slot =>
      id ∈ slot.2.jobIDs).map (fun slot => (slot.1, slot.2, start')) = some (key, slot, start) →
      ∃ tier, n.fsm.slotAt tier key = some slot ∧ id ∈ slot.jobIDs := by
    intro start' hfind
    obtain ⟨⟨key', slot'⟩, hfirst, heq⟩ := Option.map_eq_some_iff.mp hfind
    obtain ⟨rfl, rfl, -⟩ : key' = key ∧ slot' = slot ∧ start' = start := by simpa using heq
    have hmem := ((env 2).order_perm _ _).mem_iff.mp (List.mem_of_find?_eq_some hfirst)
    exact ⟨.hot, (Finmap.mem_sortedEntries _ _ _).mp hmem, by simpa using List.find?_some hfirst⟩
  rw [searched] at h
  cases hstore : n.fsm.coldStore with
  | none =>
    rw [hstore] at h
    exact hhot 3 h
  | some c =>
    rw [hstore] at h
    rcases Option.or_eq_some_iff.mp h with hcold | ⟨-, hfind⟩
    · refine ⟨.cold, listsUnder_of_coldHit hstore (fun key hkey => ?_) hcold⟩
      exact (Multiset.mem_sortedList _ key).mp (((env 3).order_perm _ _).mem_iff.mp hkey)
    · exact hhot _ hfind

/-! ## The property -/

/-- The queue is as it was, unless the job is listed. -/
def UntouchedUnlessListed (n n' : Node) (key : ℤ) (id : String) : Prop :=
  ¬ n'.fsm.ListsUnder key id →
    n'.queue.jobToSlot = n.queue.jobToSlot ∧ n'.queue.wheel = n.queue.wheel

/-- The index has lost the job only if no slot lists it, and the wheel has lost a key only if the
slot of this key does not. -/
def ForgottenOnlyIfUnlisted (n n' : Node) (id : String) : Prop :=
  (id ∈ n.queue.jobToSlot → id ∉ n'.queue.jobToSlot → ∀ key, ¬ n'.fsm.ListsUnder key id) ∧
    ∀ key, n.queue.wheel.Holds key → ¬ n'.queue.wheel.Holds key → ¬ n'.fsm.ListsUnder key id

/-- With an index entry: it goes, and the slot is written back if it can be read. -/
lemma run_removeJob_indexed (env : ℕ → Env) (hindex : n.queue.jobToSlot.lookup id = some key) :
    let n' := (run (handle 0) (removeJob id) env n).1
    n'.queue.jobToSlot = n.queue.jobToSlot.erase id ∧
      ∃ faults, n'.fsm
        = match n.fsm.getSlot key (env (2 + secondStep n.fsm key)).faults.get.isSome with
          | none => n.fsm
          | some slot =>
            if writes env (3 + secondStep n.fsm key) then
              n.fsm.shrunk faults key (without slot id)
            else n.fsm := by
  simp only [removeJob, onIndex, perform_bind, run_step, handle, hindex, run_bind, run_getSlot,
    Nat.add_comm 2]
  cases n.fsm.getSlot key (env (secondStep n.fsm key + 2)).faults.get.isSome with
  | none => exact ⟨rfl, {}, rfl⟩
  | some slot =>
    obtain ⟨hfsm, hqueue⟩ := run_shrinkSlot (fun i => env (i + (1 + secondStep n.fsm key) + 2)) key
      (without slot id) { n with queue.jobToSlot := n.queue.jobToSlot.erase id }
    have hwrites : writes (fun i => env (i + (1 + secondStep n.fsm key) + 2)) 0
        = writes env (3 + secondStep n.fsm key) :=
      writes_shift fun j => congrArg env (by omega)
    rw [hwrites] at hfsm
    refine ⟨(congrArg jobToSlot hqueue).trans ?_, _, hfsm⟩
    split_ifs
    · rfl
    · rfl

/-- With an index entry the property is that no slot lists the job afterwards.  It holds if none has
listed it, or the slot was found, the write went through and the entry could be forgotten. -/
lemma forgotten_indexed_iff (hfiled : n.fsm.Filed) (hkeys : n.fsm.KeysInRange)
    (hindex : n.queue.jobToSlot.lookup id = some key) :
    ForgottenOnlyIfUnlisted n (run (handle 0) (removeJob id) env n).1 id ↔
      (∀ key', ¬ n.fsm.ListsUnder key' id) ∨
        (n.fsm.getSlot key (env (2 + secondStep n.fsm key)).faults.get.isSome).isSome ∧
          writes env (3 + secondStep n.fsm key) = true ∧ n.fsm.Forgettable key id := by
  obtain ⟨hentry, faults, hfsm⟩ := run_removeJob_indexed env hindex
  have hgone : ForgottenOnlyIfUnlisted n (run (handle 0) (removeJob id) env n).1 id ↔
      ∀ key', ¬ (run (handle 0) (removeJob id) env n).1.fsm.ListsUnder key' id := by
    constructor
    · intro hforgotten
      refine hforgotten.1 (Finmap.mem_of_lookup_eq_some hindex) ?_
      rw [hentry]
      exact Finmap.lookup_eq_none.mp (Finmap.lookup_erase _ _)
    · intro hno
      exact ⟨fun _ _ => hno, fun key' _ _ => hno key'⟩
  rw [hgone, hfsm]
  cases hread : n.fsm.getSlot key (env (2 + secondStep n.fsm key)).faults.get.isSome with
  | none => simp
  | some slot =>
    have hslot := getSlot_false hread
    simp only
    split_ifs with hwrites
    · rw [unlisted_iff hfiled hkeys hslot]
      -- what is not listed can be forgotten
      have hunlisted : (∀ key', ¬ n.fsm.ListsUnder key' id) → n.fsm.Forgettable key id := by
        intro hno
        refine ⟨fun key' hid => absurd hid (hno key'), fun slot' hslot' _ => ?_⟩
        obtain ⟨tier, hat⟩ := exists_slotAt_of_getSlot hslot'
        exact ⟨fun hid => hno key ⟨tier, slot', hat, List.mem_of_mem_erase hid⟩,
          fun hid => hno key ⟨.cold, hid⟩⟩
      simpa [hwrites] using hunlisted
    · simp [hwrites]

/-- What is left when the slot that was found has been written back. -/
lemma run_found (env : ℕ → Env) (n : Node) (id : String) (key : ℤ) (slot : SlotData) (start : ℕ) :
    let n' := found n id env (some (key, slot, start))
    n'.queue.wheel = (if (without slot id).jobIDs = [] then n.queue.wheel.remove key
        else n.queue.wheel) ∧
      n'.fsm = if writes env start then n.fsm.shrunk (env (2 + start)).faults key (without slot id)
        else n.fsm := by
  obtain ⟨hfsm, hqueue⟩ := run_shrinkSlot (fun i => env (i + start)) key (without slot id) n
  rw [writes_shift fun j => congrArg env (Nat.add_comm j start)] at hfsm
  simp only [found, removeFound, run_bind]
  refine ⟨(congrArg wheel hqueue).trans ?_, hfsm⟩
  split_ifs
  · rfl
  · rfl

/-- Without an index entry the property is about the key of the slot that gets empty: it stays in the
wheel, or the write goes through. -/
lemma forgotten_searched_iff (hkeys : n.fsm.KeysInRange)
    (hindex : n.queue.jobToSlot.lookup id = none) :
    ForgottenOnlyIfUnlisted n (run (handle 0) (removeJob id) env n).1 id ↔
      ∀ key slot start, searched n.fsm id env = some (key, slot, start) →
        (without slot id).jobIDs = [] → n.queue.wheel.Holds key →
          writes env start = true ∨ (n.queue.wheel.remove key).Holds key := by
  have hrun : (run (handle 0) (removeJob id) env n).1 = found n id env (searched n.fsm id env) := by
    rw [← run_removeJobFallback]
    simp only [removeJob, onIndex, perform_bind, run_step, handle, hindex]
  have hindex : id ∉ n.queue.jobToSlot := Finmap.lookup_eq_none.mp hindex
  rw [hrun, ForgottenOnlyIfUnlisted]
  cases hsearched : searched n.fsm id env with
  | none =>
    refine iff_of_true ⟨fun hmem => absurd hmem hindex, fun key hheld hlost => ?_⟩ (by simp)
    exact absurd hheld hlost
  | some hit =>
    obtain ⟨key, slot, start⟩ := hit
    obtain ⟨tier, hslot, hid⟩ := slotAt_of_searched hsearched
    obtain ⟨hwheel, hfsm⟩ := run_found env n id key slot start
    rw [hfsm, hwheel]
    constructor
    · rintro ⟨-, hkept⟩ _ _ _ hhit hempty hheld
      obtain ⟨rfl, rfl, rfl⟩ : key = _ ∧ slot = _ ∧ start = _ := by simpa using hhit
      by_contra hno
      obtain ⟨hwrites, hlost⟩ := not_or.mp hno
      rw [if_neg hwrites, if_pos hempty] at hkept
      exact hkept key hheld hlost ⟨tier, slot, hslot, hid⟩
    · intro hkeeps
      refine ⟨fun hmem => absurd hmem hindex, fun key' hheld hlost => ?_⟩
      split_ifs at hlost with hempty
      · obtain rfl : key' = key := by
          by_contra hne
          exact hlost ((holds_remove_of_ne hne).mpr hheld)
        have hwrites := (hkeeps key' slot start rfl hempty hheld).resolve_right hlost
        rw [if_pos hwrites]
        rintro ⟨tier', hlists⟩
        exact ((listsIn_shrunk_nil _ (hkeys _ _ _ hslot) hempty tier' key' id).mp hlists).1 rfl
      · exact absurd hheld hlost

def slotOfOne : SlotData := ⟨0, 0, 9, ["a"]⟩

/-- A node with one job, which is listed and tracked. -/
def nodeOfOne : Node where
  fsm := FSM.withSlot .hot slotOfOne
  queue := (newPersistentSlotQueue 0).tracking 0 "a" 0

lemma forgettable_nodeOfOne : nodeOfOne.fsm.Forgettable 0 "a" where
  only := by
    rintro key ⟨tier, slot, hslot, -⟩
    exact (slotAt_withSlot_eq_some.mp hslot).1.2
  rest := by
    intro slot hslot hne
    obtain ⟨tier, hslot⟩ := exists_slotAt_of_getSlot hslot
    obtain ⟨-, rfl⟩ := slotAt_withSlot_eq_some.mp hslot
    exact absurd rfl hne

end PersistentSlotQueue

end ScheduledDb
