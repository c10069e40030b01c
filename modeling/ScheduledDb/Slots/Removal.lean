import ScheduledDb.Slots.Scheduling

/-!
# Taking a job out of its slot, with slots in two tiers

A slot is in memory or in the cold store.  `RemoveJob` looks the job up in the index, or searches
the cold slots and then those in memory, and writes the slot it has found back without the job.  But
it always writes to memory: a cold slot with other jobs gets a second copy in memory, and the cold
one still lists the job (`cold_copy_remains`).

`removed_iff` says, for all states in which every id is listed once, when the job is gone and
nothing else with it.
-/

namespace ScheduledDb

open Machine Program PersistentSlotQueue FSM Env

/-! ## Ids in two tiers -/

namespace FSM

variable {f f' : FSM} {id : String} {key : ℤ}

/-- The slot that a tier has under this key lists the id. -/
def ListsIn (f : FSM) (tier : Tier) (key : ℤ) (id : String) : Prop :=
  ∃ slot ∈ f.slotAt tier key, id ∈ slot.jobIDs

instance (f : FSM) (tier : Tier) (key : ℤ) (id : String) : Decidable (f.ListsIn tier key id) :=
  inferInstanceAs (Decidable (∃ slot ∈ f.slotAt tier key, id ∈ slot.jobIDs))

/-- No id is listed in two slots. -/
def ListedOnce (f : FSM) : Prop :=
  ∀ id tier key tier' key', f.ListsIn tier key id → f.ListsIn tier' key' id →
    tier = tier' ∧ key = key'

/-- Keys of slots are `int64`. -/
def KeysInRange (f : FSM) : Prop :=
  ∀ tier key slot, f.slotAt tier key = some slot → InRange key

/-- The job is in no slot, and the other ids are where they were. -/
def Removed (id : String) (f f' : FSM) : Prop :=
  (∀ tier key, ¬ f'.ListsIn tier key id) ∧
    ∀ id', id' ≠ id → ∀ tier key, f.ListsIn tier key id' → f'.ListsIn tier key id'

/-! ## Writing a slot back -/

/-- The state machine after a slot was written back, or deleted as empty. -/
def shrunk (f : FSM) (faults : ColdFaults) (key : ℤ) (slot : SlotData) : FSM :=
  (f.apply faults (shrinkCommand key slot)).1

variable (faults : ColdFaults) {slot slot' : SlotData} {entry : Option ℤ}

/-- An empty slot is deleted in both tiers.  If its cold copy cannot be deleted, it is not marked any
more. -/
lemma slotAt_shrunk_nil (hkey : InRange key) (hempty : slot.jobIDs = []) (tier : Tier) (key' : ℤ) :
    (f.shrunk faults key slot).slotAt tier key'
      = if key' = key then none else f.slotAt tier key' := by
  rw [shrunk, shrinkCommand, if_pos hempty, effect_deleteSlot faults f hkey]
  by_cases hk : key' = key
  · subst hk
    cases tier <;> simp [slotAt, Effect.act]
  · cases tier with
    | hot => simp [slotAt, Effect.act, hk]
    | cold => simp [slotAt, Effect.act, hk, coldCopy, coldCopy_deleteColdSlot faults f key' hk]

/-- Any other is written to memory. -/
lemma slotAt_shrunk_cons (hfiled : slot.key = key) (hne : slot.jobIDs ≠ []) (tier : Tier)
    (key' : ℤ) :
    (f.shrunk faults key slot).slotAt tier key'
      = if tier = .hot ∧ key' = key then some slot else f.slotAt tier key' := by
  rw [shrunk, shrinkCommand, if_neg hne, effect_createSlot]
  cases tier with
  | hot => simp [slotAt, Effect.act, Finmap.lookup_insert_ite, hfiled]
  | cold =>
    rw [if_neg (by simp)]
    rfl

lemma listsIn_shrunk_nil (hkey : InRange key) (hempty : slot.jobIDs = []) (tier : Tier) (key' : ℤ)
    (id : String) :
    (f.shrunk faults key slot).ListsIn tier key' id ↔ key' ≠ key ∧ f.ListsIn tier key' id := by
  rw [ListsIn, slotAt_shrunk_nil faults hkey hempty]
  by_cases hk : key' = key
  · simp [hk]
  · simp [hk, ListsIn]

lemma listsIn_shrunk_cons (hfiled : slot.key = key) (hne : slot.jobIDs ≠ []) (tier : Tier)
    (key' : ℤ) (id : String) :
    (f.shrunk faults key slot).ListsIn tier key' id ↔
      if tier = .hot ∧ key' = key then id ∈ slot.jobIDs else f.ListsIn tier key' id := by
  rw [ListsIn, slotAt_shrunk_cons faults hfiled hne]
  split_ifs
  · simp
  · rfl

/-! ## Which slot is written back -/

/-- The slot that `RemoveJob` writes back: that of the index entry, or, without one, the slot that
lists the job. -/
def Rewrites (f : FSM) (entry : Option ℤ) (id : String) (key : ℤ) (slot : SlotData) : Prop :=
  match entry with
  | some indexed => key = indexed ∧ f.getSlot key false = some slot
  | none => id ∈ slot.jobIDs ∧ ∃ tier, f.slotAt tier key = some slot

/-- **When a removal is clean.**  The job is listed under no other key than that of the slot that is
written back.  If the slot gets empty, no other id is listed under its key, in either tier.  If not,
it has listed the job only once, and no cold slot under its key lists it. -/
structure Removable (f : FSM) (entry : Option ℤ) (id : String) : Prop where
  reached : ∀ tier key, f.ListsIn tier key id → ∃ slot, f.Rewrites entry id key slot
  emptied : ∀ key slot, f.Rewrites entry id key slot → (without slot id).jobIDs = [] →
    ∀ id', id' ≠ id → ∀ tier, ¬ f.ListsIn tier key id'
  rewritten : ∀ key slot, f.Rewrites entry id key slot → (without slot id).jobIDs ≠ [] →
    id ∉ (without slot id).jobIDs ∧ ¬ f.ListsIn .cold key id

lemma Rewrites.exists_slotAt (h : f.Rewrites entry id key slot) :
    ∃ tier, f.slotAt tier key = some slot := by
  cases entry with
  | none => exact h.2
  | some indexed => exact exists_slotAt_of_getSlot h.2

lemma Rewrites.unique (honce : f.ListedOnce) {key' : ℤ} (h : f.Rewrites entry id key slot)
    (h' : f.Rewrites entry id key' slot') : key' = key ∧ slot' = slot := by
  cases entry with
  | none =>
    obtain ⟨hid, tier, hslot⟩ := h
    obtain ⟨hid', tier', hslot'⟩ := h'
    obtain ⟨rfl, rfl⟩ := honce id tier key tier' key' ⟨slot, hslot, hid⟩ ⟨slot', hslot', hid'⟩
    exact ⟨rfl, Option.some.inj (hslot'.symm.trans hslot)⟩
  | some indexed =>
    obtain ⟨rfl, hslot⟩ := h
    obtain ⟨rfl, hslot'⟩ := h'
    exact ⟨rfl, Option.some.inj (hslot'.symm.trans hslot)⟩

/-- Without a slot to write back nothing changes, which is right if the job is not listed. -/
lemma removed_self_iff (h : ∀ key slot, ¬ f.Rewrites entry id key slot) :
    Removed id f f ↔ f.Removable entry id := by
  constructor
  · intro hremoved
    exact ⟨fun tier key hlists => absurd hlists (hremoved.1 tier key),
      fun key slot hslot => absurd hslot (h key slot),
      fun key slot hslot => absurd hslot (h key slot)⟩
  · intro hclean
    refine ⟨fun tier key hlists => ?_, fun _ _ _ _ hlists => hlists⟩
    obtain ⟨slot, hslot⟩ := hclean.reached tier key hlists
    exact h key slot hslot

/-- The slot that is written back is not the one in memory only if that is missing, or the cold one
lists the job. -/
lemma Rewrites.hot (h : f.Rewrites entry id key slot) (hcold : ¬ f.ListsIn .cold key id)
    (hslot' : f.slotAt .hot key = some slot') : slot' = slot := by
  cases entry with
  | none =>
    obtain ⟨hid, tier, hslot⟩ := h
    cases tier with
    | hot => exact Option.some.inj (hslot'.symm.trans hslot)
    | cold => exact absurd ⟨slot, hslot, hid⟩ hcold
  | some indexed =>
    obtain ⟨rfl, hslot⟩ := h
    rw [getSlot_eq_slotAt, hslot', Option.some_or] at hslot
    exact Option.some.inj hslot

section Shrunk

variable {entry : Option ℤ} {slot : SlotData}

/-- The slot gets empty and is deleted, with whatever else is under its key. -/
lemma removed_iff_of_nil (hkeys : f.KeysInRange) (honce : f.ListedOnce)
    (h : f.Rewrites entry id key slot) (hempty : (without slot id).jobIDs = []) :
    Removed id f (f.shrunk {} key (without slot id)) ↔ f.Removable entry id := by
  obtain ⟨tier₀, hslot⟩ := h.exists_slotAt
  have hlists := listsIn_shrunk_nil (f := f) {} (hkeys _ _ _ hslot) hempty
  constructor
  · rintro ⟨hgone, hstay⟩
    refine ⟨fun tier key' hid => ?_, fun key' slot' h' _ id' hne tier hid' => ?_,
      fun key' slot' h' hne => ?_⟩
    · by_cases hk : key' = key
      · exact hk ▸ ⟨slot, h⟩
      · exact absurd ((hlists tier key' id).mpr ⟨hk, hid⟩) (hgone tier key')
    · obtain ⟨rfl, rfl⟩ := h.unique honce h'
      exact ((hlists tier key' id').mp (hstay id' hne tier key' hid')).1 rfl
    · obtain ⟨rfl, rfl⟩ := h.unique honce h'
      exact absurd hempty hne
  · intro hclean
    refine ⟨fun tier key' hid => ?_, fun id' hne tier key' hid' => ?_⟩
    · obtain ⟨hk, hid⟩ := (hlists tier key' id).mp hid
      obtain ⟨slot', h'⟩ := hclean.reached tier key' hid
      exact hk (h.unique honce h').1
    · refine (hlists tier key' id').mpr ⟨?_, hid'⟩
      rintro rfl
      exact hclean.emptied key' slot h hempty id' hne tier hid'

/-- The slot is written to memory. -/
lemma removed_iff_of_ne_nil (hfiled : f.Filed) (honce : f.ListedOnce)
    (h : f.Rewrites entry id key slot) (hne : (without slot id).jobIDs ≠ []) :
    Removed id f (f.shrunk {} key (without slot id)) ↔ f.Removable entry id := by
  obtain ⟨tier₀, hslot⟩ := h.exists_slotAt
  have hkey : (without slot id).key = key := (hfiled.slotAt hslot : slot.key = key)
  have hwritten : ∀ id', (f.shrunk {} key (without slot id)).ListsIn .hot key id' ↔
      id' ∈ (without slot id).jobIDs := by
    intro id'
    rw [listsIn_shrunk_cons {} hkey hne, if_pos ⟨rfl, rfl⟩]
  have hother : ∀ {tier key'}, ¬ (tier = .hot ∧ key' = key) → ∀ id',
      (f.shrunk {} key (without slot id)).ListsIn tier key' id' ↔ f.ListsIn tier key' id' := by
    intro tier key' hno id'
    rw [listsIn_shrunk_cons {} hkey hne, if_neg hno]
  constructor
  · rintro ⟨hgone, -⟩
    refine ⟨fun tier key' hid => ?_, fun key' slot' h' hempty => ?_, fun key' slot' h' _ => ?_⟩
    · by_cases hk : tier = .hot ∧ key' = key
      · exact hk.2 ▸ ⟨slot, h⟩
      · exact absurd ((hother hk id).mpr hid) (hgone tier key')
    · obtain ⟨rfl, rfl⟩ := h.unique honce h'
      exact absurd hempty hne
    · obtain ⟨rfl, rfl⟩ := h.unique honce h'
      exact ⟨fun hid => hgone .hot key' ((hwritten id).mpr hid),
        fun hid => hgone .cold key' ((hother (by simp) id).mpr hid)⟩
  · intro hclean
    obtain ⟨honly, hcold⟩ := hclean.rewritten key slot h hne
    refine ⟨fun tier key' hid => ?_, fun id' hid'ne tier key' hid' => ?_⟩
    · by_cases hk : tier = .hot ∧ key' = key
      · obtain ⟨rfl, rfl⟩ := hk
        exact honly ((hwritten id).mp hid)
      · rw [hother hk] at hid
        obtain ⟨slot', h'⟩ := hclean.reached tier key' hid
        obtain ⟨rfl, -⟩ := h.unique honce h'
        cases tier with
        | hot => exact hk ⟨rfl, rfl⟩
        | cold => exact hcold hid
    · by_cases hk : tier = .hot ∧ key' = key
      · obtain ⟨rfl, rfl⟩ := hk
        obtain ⟨slot', hslot', hmem⟩ := hid'
        obtain rfl := h.hot hcold hslot'
        exact (hwritten id').mpr ((List.mem_erase_of_ne hid'ne).mpr hmem)
      · exact (hother hk id').mpr hid'

end Shrunk

end FSM

/-! ## `RemoveJob` -/

/-- The job has no index entry any more, and the slot has been written back, if there was one. -/
def RemovedBy (n : Node) (entry : Option ℤ) (id : String) (n' : Node) : Prop :=
  n'.queue.jobToSlot.lookup id = none ∧
    ((∃ key slot, n.fsm.Rewrites entry id key slot ∧
        n'.fsm = n.fsm.shrunk {} key (without slot id)) ∨
      (∀ key slot, ¬ n.fsm.Rewrites entry id key slot) ∧ n'.fsm = n.fsm)

namespace PersistentSlotQueue

variable {thread : ℕ} {n : Node} {id : String}

lemma wp_onIndex {β : Type}
    {f : Finmap (fun _ : String => ℤ) → Finmap (fun _ : String => ℤ) × β} {Q : β → Node → Prop}
    (h : Q (f n.queue.jobToSlot).2 { n with queue.jobToSlot := (f n.queue.jobToSlot).1 }) :
    wp (handle thread) Faultless (onIndex f) Q n := fun _ _ => h

lemma wp_shrinkSlot (key : ℤ) (slot : SlotData) :
    wp (handle thread) Faultless (shrinkSlot key slot)
      (fun _ n' => n'.fsm = n.fsm.shrunk {} key slot ∧ n'.queue.jobToSlot = n.queue.jobToSlot) n := by
  have hstable : ∀ {β : Type} (_ : Act β) (e : Env) (_ : Node), e.Faultless → e.Stable :=
    fun _ _ _ h => h.1
  refine wp_ite.mpr ⟨fun hempty => ?_, fun hne => ?_⟩
  · refine wp_bind.mpr (Store.wpWith_ifLeader hstable (Store.wpWith_propose hstable
      fun e he => fun e' _ => ⟨?_, rfl⟩))
    rw [shrunk, shrinkCommand, if_pos hempty, ← he.2]
    rfl
  · refine Store.wpWith_ifLeader hstable (Store.wpWith_propose hstable fun e he => ⟨?_, rfl⟩)
    rw [shrunk, shrinkCommand, if_neg hne, ← he.2]
    rfl

lemma wp_removeFound {key : ℤ} {slot : SlotData} (h : n.fsm.Rewrites none id key slot) :
    wp (handle thread) Faultless (removeFound id key slot)
      (fun _ n' => RemovedBy n none id n') n := by
  refine wp_seq (wp_shrinkSlot key _) fun _ n' hn' => ?_
  refine fun e _ => ⟨?_, Or.inl ⟨key, slot, h, hn'.1⟩⟩
  exact Finmap.lookup_erase _ _

section Search

variable {Q : Unit → Node → Prop}

/-- The search in memory ends at a slot that lists the job, or there is none. -/
lemma wp_removeFromHot (hfound : ∀ key slot, n.fsm.slotAt .hot key = some slot → id ∈ slot.jobIDs →
      wp (handle thread) Faultless (removeFound id key slot) Q n)
    (hnone : (∀ key, ¬ n.fsm.ListsIn .hot key id) → Q () n) (slots : List (Σ _ : ℤ, SlotData))
    (hslots : ∀ x ∈ slots, n.fsm.slots.lookup x.1 = some x.2)
    (hall : ∀ key slot, n.fsm.slots.lookup key = some slot → id ∈ slot.jobIDs →
      (⟨key, slot⟩ : Σ _ : ℤ, SlotData) ∈ slots) :
    wp (handle thread) Faultless (removeFromHot id slots) Q n := by
  induction slots with
  | nil =>
    refine hnone fun key hlists => ?_
    obtain ⟨slot, hslot, hid⟩ := hlists
    cases hall key slot hslot hid
  | cons x rest ih =>
    refine wp_ite.mpr ⟨fun hid => ?_, fun hno =>
      ih (fun y hy => hslots y (List.mem_cons_of_mem x hy)) fun key slot hslot hid => ?_⟩
    · exact hfound x.1 x.2 (hslots x List.mem_cons_self) hid
    · rcases List.mem_cons.mp (hall key slot hslot hid) with rfl | hmem
      · exact absurd hid hno
      · exact hmem

/-- The search in the cold slots, by induction on the keys that are left: those of the slots that
list the job are among them. -/
lemma wp_removeFromCold {hot : Program Act Unit}
    (hfound : ∀ key slot, n.fsm.slotAt .cold key = some slot → id ∈ slot.jobIDs →
      wp (handle thread) Faultless (removeFound id key slot) Q n)
    (hnone : (∀ key, ¬ n.fsm.ListsIn .cold key id) → wp (handle thread) Faultless hot Q n)
    (keys : List ℤ) (hkeys : ∀ key ∈ keys, key ∈ n.fsm.coldSlotMeta)
    (hcold : ∀ key, n.fsm.ListsIn .cold key id → key ∈ keys) :
    wp (handle thread) Faultless (removeFromCold id hot keys) Q n := by
  induction keys with
  | nil => exact hnone fun key hid => List.not_mem_nil (hcold key hid)
  | cons key rest ih =>
    have hmark : key ∈ n.fsm.coldSlotMeta := hkeys key List.mem_cons_self
    have hnext : ¬ n.fsm.ListsIn .cold key id →
        wp (handle thread) Faultless (removeFromCold id hot rest) Q n := by
      intro hno
      refine ih (fun key' hkey' => hkeys key' (List.mem_cons_of_mem key hkey')) fun key' hid => ?_
      rcases List.mem_cons.mp (hcold key' hid) with rfl | hmem
      · exact absurd hid hno
      · exact hmem
    rw [removeFromCold, perform_bind, wp_step]
    intro e he
    have hread : (handle thread _ (.getColdSlotData key) e n).2
        = n.fsm.coldStore.map fun c => c.lookup key := by
      simp [handle, he.2]
    have hslotAt : n.fsm.slotAt .cold key = n.fsm.coldStore.bind fun c => c.lookup key :=
      if_pos hmark
    rw [hread]
    cases hstore : n.fsm.coldStore with
    | none => exact hnext (by simp [ListsIn, hslotAt, hstore])
    | some c =>
      rw [hstore, Option.bind_some] at hslotAt
      rw [Option.map_some]
      cases hslot : c.lookup key with
      | none => exact hnext (by simp [ListsIn, hslotAt, hslot])
      | some slot =>
        rw [hslot] at hslotAt
        refine wp_ite.mpr ⟨fun hid => hfound key slot hslotAt hid, fun hno => hnext ?_⟩
        simp [ListsIn, hslotAt, hno]

/-- **The search** takes the job out of a slot that lists it, or there is none. -/
lemma wp_removeJobFallback
    (hfound : ∀ tier key slot, n.fsm.slotAt tier key = some slot → id ∈ slot.jobIDs →
      wp (handle thread) Faultless (removeFound id key slot) Q n)
    (hnone : (∀ tier key, ¬ n.fsm.ListsIn tier key id) → Q () n) :
    wp (handle thread) Faultless (removeJobFallback id) Q n := by
  have hmem : ∀ (e : Env) (x : Σ _ : ℤ, SlotData),
      x ∈ e.order _ n.fsm.slots.sortedEntries ↔ n.fsm.slots.lookup x.1 = some x.2 := fun e x =>
    (e.order_perm _ _).mem_iff.trans (Finmap.mem_sortedEntries _ _ _)
  have hhot : ∀ e : Env, (∀ key, ¬ n.fsm.ListsIn .cold key id) → wp (handle thread) Faultless
      (removeFromHot id (e.order _ n.fsm.slots.sortedEntries)) Q n := by
    intro e hcold
    refine wp_removeFromHot (hfound .hot) (fun hhot => hnone fun tier key => ?_) _
      (fun x hx => (hmem e x).mp hx) fun key slot hslot _ => (hmem e ⟨key, slot⟩).mpr hslot
    cases tier with
    | hot => exact hhot key
    | cold => exact hcold key
  simp only [removeJobFallback, perform_bind, wp_step, wp_ite]
  refine fun _ _ => ⟨fun _ e _ e' _ => ?_, fun hdisabled e _ => hhot e fun key hid => ?_⟩
  · have hmemKeys : ∀ key, key ∈ e'.order _ n.fsm.coldSlotMeta.val.sortedList ↔
        key ∈ n.fsm.coldSlotMeta := fun key =>
      (e'.order_perm _ _).mem_iff.trans (Multiset.mem_sortedList _ key)
    refine wp_removeFromCold (hfound .cold) (hhot e) _ (fun key hkey => (hmemKeys key).mp hkey)
      fun key hid => (hmemKeys key).mpr ?_
    obtain ⟨slot, hslot, -⟩ := hid
    by_contra hno
    simp [slotAt, hno] at hslot
  · have hnone : n.fsm.coldStore = none := by simpa [handle] using hdisabled
    obtain ⟨slot, hslot, -⟩ := hid
    simp [slotAt, coldCopy, hnone] at hslot

end Search

lemma wp_removeJob :
    wp (handle thread) Faultless (removeJob id)
      (fun _ n' => RemovedBy n (n.queue.jobToSlot.lookup id) id n') n := by
  refine wp_bind.mpr (wp_onIndex ?_)
  cases hindex : n.queue.jobToSlot.lookup id with
  | none =>
    refine wp_removeJobFallback
      (fun tier key slot hslot hid => wp_removeFound ⟨hid, tier, hslot⟩) fun hno => ?_
    refine ⟨hindex, Or.inr ⟨?_, rfl⟩⟩
    rintro key slot ⟨hid, tier, hslot⟩
    exact hno tier key ⟨slot, hslot, hid⟩
  | some key =>
    refine wp_bind.mpr (wp_onIndex ?_)
    refine wp_bind.mpr (Store.wp_getSlot fun e he => ?_)
    have hread : e.faults.get.isSome = false := by
      rw [he.2]
      rfl
    have herased : (n.queue.jobToSlot.erase id).lookup id = none := Finmap.lookup_erase _ _
    simp only [hread]
    cases hslot : n.fsm.getSlot key false with
    | none =>
      refine ⟨herased, Or.inr ⟨fun key' slot h => ?_, rfl⟩⟩
      obtain ⟨rfl, h⟩ := h
      simp [hslot] at h
    | some slot =>
      refine wp_mono (wp_shrinkSlot key (without slot id)) fun _ n' hn' => ?_
      exact ⟨hn'.2 ▸ herased, Or.inl ⟨key, slot, ⟨rfl, hslot⟩, hn'.1⟩⟩

/-- **`RemoveJob` on a stable leader**, from every state in which an id is listed in at most one
slot, with or without a cold store.  The index entry goes.  The job is in no slot any more, and the
other ids are where they were, exactly if the removal is clean. -/
theorem removed_iff (thread : ℕ) (id : String) (n : Node) (hfiled : n.fsm.Filed)
    (hkeys : n.fsm.KeysInRange) (honce : n.fsm.ListedOnce) (env : ℕ → Env)
    (henv : ∀ i, (env i).Faultless) :
    let n' := (run (handle thread) (removeJob id) env n).1
    n'.queue.jobToSlot.lookup id = none ∧
      (Removed id n.fsm n'.fsm ↔ n.fsm.Removable (n.queue.jobToSlot.lookup id) id) := by
  intro n'
  obtain ⟨hindex, hfsm⟩ : RemovedBy n (n.queue.jobToSlot.lookup id) id n' :=
    wp_run wp_removeJob henv
  refine ⟨hindex, ?_⟩
  rcases hfsm with ⟨key, slot, h, hfsm⟩ | ⟨hno, hfsm⟩
  · rw [hfsm]
    by_cases hempty : (without slot id).jobIDs = []
    · exact removed_iff_of_nil hkeys honce h hempty
    · exact removed_iff_of_ne_nil hfiled honce h hempty
  · rw [hfsm]
    exact removed_self_iff hno

end PersistentSlotQueue

/-! ## One slot -/

namespace FSM

/-- A state machine with a cold store and one slot, in the given tier. -/
def withSlot (tier : Tier) (slot : SlotData) : FSM :=
  match tier with
  | .hot => { newFSMWithColdStore ∅ with slots := Finmap.insert slot.key slot ∅ }
  | .cold =>
    { newFSMWithColdStore (Finmap.insert slot.key slot ∅) with coldSlotMeta := {slot.key} }

variable {tier : Tier} {slot : SlotData}

lemma slotAt_withSlot_eq_some {tier' : Tier} {key : ℤ} {slot' : SlotData} :
    (withSlot tier slot).slotAt tier' key = some slot' ↔
      (tier' = tier ∧ key = slot.key) ∧ slot = slot' := by
  cases tier <;> cases tier' <;>
    simp [withSlot, slotAt, newFSMWithColdStore, newFSM, coldCopy, Finmap.lookup_insert_ite]

lemma filed_withSlot (tier : Tier) (slot : SlotData) : (withSlot tier slot).Filed := by
  have hone : ∀ (key : ℤ) (slot' : SlotData),
      (Finmap.insert slot.key slot (∅ : Finmap fun _ : ℤ => SlotData)).lookup key = some slot' →
        slot'.key = key :=
    Finmap.named_insert (by simp) rfl
  cases tier with
  | hot => exact ⟨by simp [withSlot, newFSMWithColdStore, newFSM], hone,
      by simp [withSlot, newFSMWithColdStore], by simp [withSlot, newFSMWithColdStore, newFSM]⟩
  | cold => exact ⟨by simp [withSlot, newFSMWithColdStore, newFSM],
      by simp [withSlot, newFSMWithColdStore, newFSM],
      fun _ hc => (Option.some.inj hc) ▸ hone, by simp [withSlot, newFSMWithColdStore, newFSM]⟩

lemma keysInRange_withSlot (h : InRange slot.key) : (withSlot tier slot).KeysInRange := by
  intro tier' key slot' hslot
  obtain ⟨⟨-, rfl⟩, -⟩ := slotAt_withSlot_eq_some.mp hslot
  exact h

lemma listedOnce_withSlot (tier : Tier) (slot : SlotData) : (withSlot tier slot).ListedOnce := by
  rintro id t key t' key' ⟨_, h, -⟩ ⟨_, h', -⟩
  obtain ⟨⟨rfl, rfl⟩, -⟩ := slotAt_withSlot_eq_some.mp h
  obtain ⟨⟨rfl, rfl⟩, -⟩ := slotAt_withSlot_eq_some.mp h'
  exact ⟨rfl, rfl⟩

end FSM

def slotOfTwo : SlotData := ⟨5, 50, 59, ["a", "b"]⟩

/-- A node with one slot of two jobs, and no index entries. -/
def nodeOfTwo (tier : Tier) : Node where
  fsm := FSM.withSlot tier slotOfTwo
  queue := newPersistentSlotQueue 0

open FSM in
/-- A slot in memory gets rid of the job. -/
theorem hot_copy_removed :
    Removed "a" (nodeOfTwo .hot).fsm
      (run (handle 0) (removeJob "a") (fun _ => calm 0) (nodeOfTwo .hot)).1.fsm := by
  refine (PersistentSlotQueue.removed_iff 0 "a" (nodeOfTwo .hot) (filed_withSlot .hot slotOfTwo)
    (keysInRange_withSlot (by decide)) (listedOnce_withSlot .hot slotOfTwo) (fun _ => calm 0)
    fun _ => ⟨by decide, rfl⟩).2.mpr ⟨?_, ?_, ?_⟩
  · rintro tier key ⟨slot, hslot, hid⟩
    exact ⟨slot, hid, tier, hslot⟩
  · rintro key slot ⟨-, tier, hslot⟩ hempty
    obtain ⟨-, rfl⟩ := slotAt_withSlot_eq_some.mp hslot
    exact absurd hempty (by decide)
  · rintro key slot ⟨-, tier, hslot⟩ -
    obtain ⟨-, rfl⟩ := slotAt_withSlot_eq_some.mp hslot
    refine ⟨by decide, ?_⟩
    rintro ⟨slot', hslot', -⟩
    change (withSlot .hot slotOfTwo).slotAt .cold key = some slot' at hslot'
    cases (slotAt_withSlot_eq_some.mp hslot').1.1

/-- **A cold slot keeps the job**: `RemoveJob` writes the slot without it to memory, and the copy in
the cold store stays marked, with the job. -/
theorem cold_copy_remains :
    let n := nodeOfTwo .cold
    let n' := (run (handle 0) (removeJob "a") (fun _ => calm 0) n).1
    n.fsm.Filed ∧ n.fsm.KeysInRange ∧ n.fsm.ListedOnce ∧ (calm 0).Faultless ∧
      n'.fsm.ListsIn .hot 5 "b" ∧ n'.fsm.ListsIn .cold 5 "a" ∧ n'.fsm.ListsIn .cold 5 "b" := by
  intro n n'
  refine ⟨filed_withSlot .cold slotOfTwo, keysInRange_withSlot (by decide),
    listedOnce_withSlot .cold slotOfTwo, ⟨by decide, rfl⟩, ?_⟩
  decide +kernel

end ScheduledDb
