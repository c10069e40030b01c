import ScheduledDb.Slots.Punctuality

/-!
# A queue from the store

Index and wheel of a slot queue are not replicated.  `LoadJobs` makes them from the slots in the
store, whatever queue there was before: the index that comes out is the one there was
(`IndexAgrees` leaves no choice), and the wheel holds the keys of all slots, in whatever order they
were read.  If no slot is over, the queue is in step again (**`InStep.wp_loadJobs`**).
-/

namespace ScheduledDb

open Machine Program PersistentSlotQueue

namespace PersistentSlotQueue

lemma lookup_foldl_insert (key : ℤ) (ids : List String) (m : Finmap fun _ : String => ℤ)
    (id : String) :
    (ids.foldl (fun m id => m.insert id key) m).lookup id
      = if id ∈ ids then some key else m.lookup id := by
  induction ids generalizing m with
  | nil => simp
  | cons id' ids ih =>
    rw [List.foldl_cons, ih, Finmap.lookup_insert_ite]
    by_cases hid : id = id' <;> simp [hid]

/-- The queue while it is loaded: the store is as before, the wheel holds the keys of the slots that
have been read, and the index their jobs. -/
structure Loaded (G : WheelGeometry) (K : ℤ) (n n' : Node) (slots : List (Σ _ : ℤ, SlotData)) :
    Prop where
  fsm : n'.fsm = n.fsm
  trace : n'.trace = n.trace
  slotGap : n'.queue.slotGap = n.queue.slotGap
  standsAt : n'.queue.wheel.StandsAt G K
  holds : ∀ k, n'.queue.wheel.Holds k ↔ ∃ slot ∈ slots, slot.1 = k
  index : ∀ id key, n'.queue.jobToSlot.lookup id = some key ↔
    ∃ slot ∈ slots, slot.1 = key ∧ id ∈ slot.2.jobIDs

variable {G : WheelGeometry} {K : ℤ} {n n' : Node} {ok : Env → Prop}
  {slots : List (Σ _ : ℤ, SlotData)}

/-- One slot more, that shares no job with the others. -/
lemma Loaded.wp_trackSlot (h : Loaded G K n n' slots) (hK : 0 ≤ K) {slot : Σ _ : ℤ, SlotData}
    (hle : K ≤ slot.1) (hrange : InRange (slot.1 * G.gap))
    (hapart : ∀ slot' ∈ slots, ∀ id ∈ slot.2.jobIDs, id ∈ slot'.2.jobIDs → slot'.1 = slot.1) :
    wp (handle queueThread) ok (trackSlot slot.1 slot.2)
      (fun _ n'' => Loaded G K n n'' (slots ++ [slot])) n' := by
  intro e _ e' _
  have hadd := h.standsAt.add hK (hK.trans hle) hrange
  refine ⟨h.fsm, h.trace, h.slotGap, hadd, fun k => ?_, fun id key => ?_⟩
  · show (n'.queue.wheel.add slot.1).Holds k ↔ _
    rw [h.standsAt.holds_add, h.holds]
    simp [eq_comm]
  · show (List.foldl _ n'.queue.jobToSlot slot.2.jobIDs).lookup id = _ ↔ _
    rw [lookup_foldl_insert]
    split_ifs with hid
    · constructor
      · intro hkey
        exact ⟨slot, by simp, Option.some.inj hkey, hid⟩
      · rintro ⟨slot', hslot', rfl, hid'⟩
        rcases List.mem_append.mp hslot' with hold | hnew
        · rw [hapart slot' hold id hid hid']
        · rw [List.mem_singleton.mp hnew]
    · rw [h.index]
      constructor
      · rintro ⟨slot', hslot', hrest⟩
        exact ⟨slot', List.mem_append_left _ hslot', hrest⟩
      · rintro ⟨slot', hslot', hkey, hid'⟩
        rcases List.mem_append.mp hslot' with hold | hnew
        · exact ⟨slot', hold, hkey, hid'⟩
        · rw [List.mem_singleton.mp hnew] at hid'
          exact absurd hid' hid

/-- All slots of a list. -/
lemma Loaded.wp_trackSlots {rest : List (Σ _ : ℤ, SlotData)} (h : Loaded G K n n' slots)
    (hK : 0 ≤ K) (hrest : ∀ slot ∈ rest, K ≤ slot.1 ∧ InRange (slot.1 * G.gap))
    (hapart : ∀ slot ∈ slots ++ rest, ∀ slot' ∈ slots ++ rest, ∀ id ∈ slot.2.jobIDs,
      id ∈ slot'.2.jobIDs → slot'.1 = slot.1) :
    wp (handle queueThread) ok (forEach rest fun slot => trackSlot slot.1 slot.2)
      (fun _ n'' => Loaded G K n n'' (slots ++ rest)) n' := by
  induction rest generalizing slots n' with
  | nil =>
    rw [List.append_nil]
    exact h
  | cons slot rest ih =>
    obtain ⟨hle, hrange⟩ := hrest slot List.mem_cons_self
    refine wp_seq (h.wp_trackSlot hK hle hrange fun slot' hslot' => ?_) ?_
    · exact hapart slot (by simp) slot' (List.mem_append_left _ hslot')
    · intro _ n'' h''
      have happ : slots ++ slot :: rest = (slots ++ [slot]) ++ rest := by simp
      rw [happ] at hapart ⊢
      exact ih h'' (fun slot' hslot' => hrest slot' (List.mem_cons_of_mem slot hslot')) hapart

end PersistentSlotQueue

/-- Another queue with the same index and the same gap. -/
lemma InOrder.of_index {gap : ℤ} {n n' : Node} (h : InOrder gap none n) (hfsm : n'.fsm = n.fsm)
    (hindex : n'.queue.jobToSlot = n.queue.jobToSlot) (hgap : seconds n'.queue.slotGap = gap) :
    InOrder gap none n' := by
  have hshown : n'.queueView.shown = n.queueView.shown := by simp only [Node.queueView, hfsm]
  have hjobsAt : n'.queueView.jobsAt = n.queueView.jobsAt := by
    funext key
    rw [QueueView.jobsAt, QueueView.jobsAt, hshown]
  have hlookup : n'.queueView.jobToSlot = n.queueView.jobToSlot := hindex
  refine ⟨⟨?_, ?_, ?_, ?_⟩, fun {key slot} hslot => ?_, hgap, hfsm ▸ h.noCold, ?_, hfsm ▸ h.filed⟩
  · rw [hshown]
    exact h.tracks.filed
  · rw [hjobsAt]
    exact h.tracks.nodup
  · rw [hjobsAt, hlookup]
    exact h.tracks.listed
  · rw [hlookup]
    exact h.tracks.inRange
  · rw [hshown] at hslot
    have hgaps : seconds n'.queueView.slotGap = seconds n.queueView.slotGap :=
      hgap.trans h.slotGap.symm
    rw [hgaps]
    exact h.neat hslot
  · rw [hindex, hfsm]
    exact h.live

namespace InStep

variable {G : WheelGeometry} {b K : ℤ} {n n0 : Node}

/-- **`LoadJobs`.**  A queue for the same slots that has lost everything is in step again. -/
lemma wp_loadJobs (h : InStep G b n0) (hfsm : n.fsm = n0.fsm)
    (hgap : seconds n.queue.slotGap = G.gap) (hfits : n.queue.wheel.Fits G) (hK : 0 ≤ K)
    (hahead : ∀ k slot, n.fsm.slots.lookup k = some slot → K ≤ k) :
    wp (handle queueThread) (DuringSlot G.gap K) loadJobs
      (fun _ n' => InStep G K n' ∧ Undisclosed n n') n := by
  have hagrees := h.order.indexAgrees
  simp only [loadJobs, onIndex, onWheel, perform_bind, wp_step, wp_bind, wp_ite]
  intro e1 _ e2 _ e3 he3 e4 _ e5 _
  have hblank := hfits.blank_reset
  have hstands : (n.queue.wheel.reset.init e3.now).StandsAt G K := by
    rw [← he3.2.2]
    exact (hblank.tracks he3.2.1).standsAt
  have hempty : ∀ k, ¬ (n.queue.wheel.reset.init e3.now).Holds k := fun k hk =>
    hblank.empty k ((HierarchicalTimingWheel.holds_init e3.now k).mp hk)
  have hstart : Loaded G K n
      { n with
        queue := { n.queue with
          jobToSlot := ∅
          wheel := n.queue.wheel.reset.init e3.now } } [] :=
    ⟨rfl, rfl, rfl, hstands, by simpa using hempty, by simp⟩
  have hstored : ∀ slot ∈ e5.order _ n.fsm.slots.sortedEntries,
      n0.fsm.slots.lookup slot.1 = some slot.2 := by
    intro slot hslot
    rw [(e5.order_perm _ _).mem_iff] at hslot
    rw [← hfsm]
    exact (Finmap.mem_sortedEntries _ slot.1 slot.2).mp hslot
  have hreach : ∀ slot ∈ e5.order _ n.fsm.slots.sortedEntries,
      K ≤ slot.1 ∧ InRange (slot.1 * G.gap) := by
    intro slot hslot
    have hheld := h.watch.held _ _ (hstored slot hslot)
    exact ⟨hahead slot.1 slot.2 (by rw [hfsm, hstored slot hslot]),
      (h.watch.rests.standsAt hheld).inRange hheld⟩
  refine wp_mono (hstart.wp_trackSlots hK hreach fun slot hslot slot' hslot' id hid hid' => ?_) ?_
  · exact hagrees.apart _ _ _ _ id (hstored slot' hslot') (hstored slot hslot) hid' hid
  · rintro _ n' hloaded e6 _
    have hmem : ∀ k slot, (⟨k, slot⟩ : Σ _ : ℤ, SlotData) ∈ [] ++ e5.order _ n.fsm.slots.sortedEntries
        ↔ n.fsm.slots.lookup k = some slot := by
      intro k slot
      rw [List.nil_append, (e5.order_perm _ _).mem_iff]
      exact Finmap.mem_sortedEntries _ k slot
    have hcold : n'.fsm.coldStore = none := by rw [hloaded.fsm, hfsm, h.watch.noCold]
    have hindex : n'.queue.jobToSlot = n0.queue.jobToSlot := by
      refine Finmap.ext_lookup fun id => Option.ext fun key => ?_
      rw [hloaded.index, hagrees.index, ← hfsm]
      constructor
      · rintro ⟨⟨k, slot⟩, hslot, rfl, hid⟩
        exact ⟨slot, (hmem k slot).mp hslot, hid⟩
      · rintro ⟨slot, hslot, hid⟩
        exact ⟨⟨key, slot⟩, (hmem key slot).mpr hslot, rfl, hid⟩
    have hdone : InStep G K n' ∧ Undisclosed n n' := by
      refine ⟨⟨?_, ?_, ?_⟩, ?_⟩
      · exact h.order.of_index (by rw [hloaded.fsm, hfsm]) hindex (by rw [hloaded.slotGap, hgap])
      · refine ⟨hcold, ?_, Or.inr hloaded.standsAt, fun k hk => ?_, ?_, fun k slot hslot => ?_⟩
        · rw [hloaded.slotGap, hgap]
        · obtain ⟨⟨k', slot⟩, hslot, rfl⟩ := (hloaded.holds k).mp hk
          exact hahead k' slot ((hmem k' slot).mp hslot)
        · rw [hloaded.fsm, hfsm]
          exact h.watch.filed
        · rw [hloaded.fsm] at hslot
          exact (hloaded.holds k).mpr ⟨⟨k, slot⟩, (hmem k slot).mpr hslot, rfl⟩
      · rw [hindex, hloaded.fsm, hfsm]
        exact h.indexed
      · exact ⟨fun id => by rw [hloaded.fsm], by rw [Node.called, hloaded.trace, Node.called]⟩
    refine ⟨fun hon => ?_, fun _ => hdone⟩
    simp [handle, hcold] at hon

end InStep

end ScheduledDb
