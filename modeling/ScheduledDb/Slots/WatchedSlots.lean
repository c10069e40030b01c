import ScheduledDb.Slots.Agreement
import ScheduledDb.Slots.NextSlot
import ScheduledDb.Slots.TimingWheel.CurrentSlot

/-!
# The wheel watches over the slots

Without cold spilling, and as long as its base moves on slot by slot, the wheel holds the key of
every slot in the store, and no key of a slot that is over: `OnWatch`.  Every call of the queue keeps
this on a stable leader, the deletion of a slot included, which takes the key of that slot only.

So `GetNextSlot` finds the slot of the present if it is in the store, and otherwise returns nothing
or a slot that has not begun (`wp_getNextSlot`).
-/

namespace ScheduledDb

open Machine Program PersistentSlotQueue

/-- On a stable leader, with the clock in the given slot. -/
def DuringSlot (gap slot : ℤ) (e : Env) : Prop :=
  e.Stable ∧ InRange e.now ∧ e.now.tdiv gap = slot

instance (gap slot : ℤ) (e : Env) : Decidable (DuringSlot gap slot e) :=
  inferInstanceAs (Decidable (_ ∧ _ ∧ _))

/-- The wheel is at slot `b`, or has not been started; it holds keys from `b` on, those of all slots
in the store among them. -/
structure OnWatch (G : WheelGeometry) (b : ℤ) (n : Node) : Prop where
  noCold : n.fsm.coldStore = none
  slotGap : seconds n.queue.slotGap = G.gap
  rests : n.queue.wheel.Rests G b
  ahead : ∀ k, n.queue.wheel.Holds k → b ≤ k
  filed : ∀ k slot, n.fsm.slots.lookup k = some slot → slot.key = k
  held : ∀ k slot, n.fsm.slots.lookup k = some slot → n.queue.wheel.Holds k

namespace OnWatch

variable {G : WheelGeometry} {b : ℤ} {n n' : Node} {slot : SlotData} {k key K : ℤ}

/-- Keys of slots in the store are 64-bit numbers. -/
lemma inRange (h : OnWatch G b n) (hk : n.fsm.slots.lookup k = some slot) : InRange k := by
  have hheld := h.held k slot hk
  have hstands := h.rests.standsAt hheld
  exact inRange_of_mul G.gap_pos (hstands.inRange hheld)

/-- A state with the same slots and the same queue. -/
lemma of_same (h : OnWatch G b n) (hslots : n'.fsm.slots = n.fsm.slots)
    (hcold : n'.fsm.coldStore = none) (hgap : n'.queue.slotGap = n.queue.slotGap)
    (hwheel : n'.queue.wheel = n.queue.wheel) : OnWatch G b n' where
  noCold := hcold
  slotGap := hgap ▸ h.slotGap
  rests := hwheel ▸ h.rests
  ahead := hwheel ▸ h.ahead
  filed := hslots ▸ h.filed
  held := by
    rw [hslots, hwheel]
    exact h.held

/-- A key without a slot may be taken out of the wheel. -/
lemma remove (h : OnWatch G b n) (hk : n.fsm.slots.lookup k = none) :
    OnWatch G b { n with queue := { n.queue with wheel := n.queue.wheel.remove k } } where
  noCold := h.noCold
  slotGap := h.slotGap
  rests := h.rests.remove k
  ahead := fun k' hk' => h.ahead k' (HierarchicalTimingWheel.holds_of_remove hk')
  filed := h.filed
  held := by
    intro k' slot hslot
    have hne : k' ≠ k := by
      rintro rfl
      simp [hk] at hslot
    exact (HierarchicalTimingWheel.holds_remove_of_ne hne).mpr (h.held k' slot hslot)

lemma lookup_createSlot (f : FSM) (faults : ColdFaults) (slot : SlotData) (k : ℤ) :
    (f.apply faults { type := .createSlot, slot := some slot }).1.slots.lookup k
      = if k = slot.key then some slot else f.slots.lookup k := by
  rw [FSM.effect_createSlot]
  exact Finmap.lookup_insert_ite f.slots slot.key k slot

lemma lookup_deleteSlot (f : FSM) (faults : ColdFaults) (hkey : InRange key) (k : ℤ) :
    (f.apply faults { type := .deleteSlot, id := printKey key }).1.slots.lookup k
      = if k = key then none else f.slots.lookup k := by
  rw [FSM.effect_deleteSlot faults f hkey]
  exact Finmap.lookup_erase_ite f.slots key k

/-- A command leaves a node without cold store without one. -/
lemma coldStore_apply {f : FSM} (hcold : f.coldStore = none) (faults : ColdFaults) (cmd : Command) :
    (f.apply faults cmd).1.coldStore = none := by
  refine Option.not_isSome_iff_eq_none.mp ?_
  rw [FSM.isSome_coldStore_apply, hcold]
  simp

/-- A slot may be written if its key is held. -/
lemma createSlot (h : OnWatch G b n) (hheld : n.queue.wheel.Holds slot.key) (thread : ℕ)
    (faults : ColdFaults) :
    OnWatch G b (n.applyCommand thread faults { type := .createSlot, slot := some slot }) where
  noCold := coldStore_apply h.noCold faults _
  slotGap := h.slotGap
  rests := h.rests
  ahead := h.ahead
  filed := by
    intro k slot' hslot'
    rw [Node.applyCommand_fsm, lookup_createSlot] at hslot'
    split_ifs at hslot' with hk
    · rw [← Option.some.inj hslot', hk]
    · exact h.filed k slot' hslot'
  held := by
    intro k slot' hslot'
    rw [Node.applyCommand_fsm, lookup_createSlot] at hslot'
    split_ifs at hslot' with hk
    · rw [hk]
      exact hheld
    · exact h.held k slot' hslot'

lemma deleteSlot (h : OnWatch G b n) (hkey : InRange key) (thread : ℕ) (faults : ColdFaults) :
    OnWatch G b (n.applyCommand thread faults { type := .deleteSlot, id := printKey key }) := by
  have hold : ∀ k slot,
    (n.fsm.apply faults { type := .deleteSlot, id := printKey key }).1.slots.lookup k
      = some slot → n.fsm.slots.lookup k = some slot := by
    intro k slot hslot
    rw [lookup_deleteSlot _ _ hkey] at hslot
    split_ifs at hslot
    exact hslot
  exact
    { noCold := coldStore_apply h.noCold faults _
      slotGap := h.slotGap
      rests := h.rests
      ahead := h.ahead
      filed := fun k slot hslot => h.filed k slot (hold k slot hslot)
      held := fun k slot hslot => h.held k slot (hold k slot hslot) }

/-! ## Taking jobs out -/

/-- The index is not what is watched. -/
lemma wp_onIndex {ok : Env → Prop} {β : Type} {Q : β → Node → Prop}
    {f : (Finmap fun _ : String => ℤ) → (Finmap fun _ : String => ℤ) × β} (h : OnWatch G b n)
    (hQ : ∀ n', OnWatch G b n' → n'.fsm = n.fsm → Q (f n.queue.jobToSlot).2 n') :
    wp (handle queueThread) ok (onIndex f) Q n := by
  intro e _
  exact hQ _ (h.of_same rfl h.noCold rfl rfl) rfl

section Calls

variable {ok : Env → Prop} (hok : ∀ e, ok e → e.Stable)

include hok

lemma wp_shrinkSlot (h : OnWatch G b n) {key : ℤ} {old slot : SlotData}
    (hold : n.fsm.slots.lookup key = some old) (hkey : slot.key = key) :
    wp (handle queueThread) ok (shrinkSlot key slot) (fun _ => OnWatch G b) n := by
  have hstable : ∀ {β : Type} (a : Act β) (e : Env) (n : Node), ok e → e.Stable :=
    fun _ e _ he => hok e he
  refine wp_ite.mpr ⟨fun _ => wp_bind.mpr ?_, fun _ => ?_⟩
  · refine Store.wpWith_ifLeader hstable (Store.wpWith_propose hstable fun e _ => ?_)
    intro e' _
    refine (h.deleteSlot (h.inRange hold) queueThread e.faults).remove ?_
    rw [Node.applyCommand_fsm, lookup_deleteSlot _ _ (h.inRange hold), if_pos rfl]
  · refine Store.wpWith_ifLeader hstable (Store.wpWith_propose hstable fun e _ => ?_)
    exact h.createSlot (hkey ▸ h.held key old hold) queueThread e.faults

lemma wp_removeFound (h : OnWatch G b n) {id : String} {key : ℤ} {slot : SlotData}
    (hslot : n.fsm.slots.lookup key = some slot) :
    wp (handle queueThread) ok (removeFound id key slot) (fun _ => OnWatch G b) n := by
  have hkey : (without slot id).key = key := h.filed key slot hslot
  exact wp_seq (h.wp_shrinkSlot hok hslot hkey) fun _ n1 h1 =>
    h1.wp_onIndex fun n2 h2 _ => h2

lemma wp_removeFromHot (h : OnWatch G b n) (id : String) {slots : List (Σ _ : ℤ, SlotData)}
    (hslots : ∀ slot ∈ slots, n.fsm.slots.lookup slot.1 = some slot.2) :
    wp (handle queueThread) ok (removeFromHot id slots) (fun _ => OnWatch G b) n := by
  induction slots with
  | nil => exact h
  | cons slot rest ih =>
    refine wp_ite.mpr ⟨fun _ => h.wp_removeFound hok (hslots slot List.mem_cons_self), fun _ => ?_⟩
    exact ih fun slot' hmem => hslots slot' (List.mem_cons_of_mem slot hmem)

lemma wp_removeJob (h : OnWatch G b n) (id : String) :
    wp (handle queueThread) ok (removeJob id) (fun _ => OnWatch G b) n := by
  refine wp_bind.mpr (h.wp_onIndex fun n1 h1 _ => ?_)
  cases n.queue.jobToSlot.lookup id with
  | none =>
    simp only [removeJobFallback, perform_bind, wp_step, wp_ite]
    refine fun e _ => ⟨fun hcold => ?_, fun _ e' _ => h1.wp_removeFromHot hok id fun slot hmem => ?_⟩
    · simp [handle, h1.noCold] at hcold
    · simp only [handle] at hmem
      rw [(e'.order_perm _ _).mem_iff] at hmem
      exact (Finmap.mem_sortedEntries n1.fsm.slots slot.1 slot.2).mp hmem
  | some key =>
    refine wp_bind.mpr (h1.wp_onIndex fun n2 h2 _ => ?_)
    refine wp_bind.mpr (Store.wp_getSlot fun e _ => ?_)
    simp only [FSM.getSlot_of_none h2.noCold]
    cases hslot : n2.fsm.slots.lookup key with
    | none => exact h2
    | some slot => exact h2.wp_shrinkSlot hok hslot (h2.filed key slot hslot)

end Calls

/-! ## Adding a job -/

/-- The wheel is started. -/
lemma wp_ensureInit (h : OnWatch G b n) :
    wp (handle queueThread) (DuringSlot G.gap K) ensureInit
      (fun _ n' => n'.fsm = n.fsm ∧ n'.queue.jobToSlot = n.queue.jobToSlot ∧
        ∃ b', (b' = b ∨ b' = K) ∧ OnWatch G b' n' ∧ n'.queue.wheel.StandsAt G b') n := by
  refine wp_bind.mpr fun e _ => wp_ite.mpr ⟨fun hrun => ?_, fun hwait => ?_⟩
  · have hstands : n.queue.wheel.StandsAt G b := by
      refine h.rests.resolve_left fun hblank => ?_
      simp [handle, hblank.waiting] at hrun
    exact ⟨rfl, rfl, b, Or.inl rfl, h, hstands⟩
  · rw [perform_bind, wp_step]
    rintro e1 ⟨-, hrange, hslot⟩ e2 -
    have hblank : n.queue.wheel.Blank G := by
      refine h.rests.resolve_right fun hstands => ?_
      simp [handle, hstands.initialized] at hwait
    have hempty : ∀ k, ¬ (n.queue.wheel.init e1.now).Holds k := fun k hk =>
      hblank.empty k ((HierarchicalTimingWheel.holds_init e1.now k).mp hk)
    have hstands : (n.queue.wheel.init e1.now).StandsAt G K := by
      rw [← hslot]
      exact (hblank.tracks hrange).standsAt
    refine ⟨rfl, rfl, K, Or.inr rfl, ?_, hstands⟩
    exact
      { noCold := h.noCold
        slotGap := h.slotGap
        rests := Or.inr hstands
        ahead := fun k hk => absurd hk (hempty k)
        filed := h.filed
        held := fun k slot hslot => absurd (h.held k slot hslot) (hblank.empty k) }

/-- The slot is written and its key added. -/
lemma add (h : OnWatch G b n) (hstands : n.queue.wheel.StandsAt G b) (hb : 0 ≤ b)
    (hle : b ≤ slot.key) (hrange : InRange (slot.key * G.gap)) (thread : ℕ) (faults : ColdFaults)
    (index : Finmap fun _ : String => ℤ) :
    OnWatch G b
      { n.applyCommand thread faults { type := .createSlot, slot := some slot } with
        queue := { n.queue with jobToSlot := index, wheel := n.queue.wheel.add slot.key } } := by
  have hadd : (n.queue.wheel.add slot.key).StandsAt G b := hstands.add hb (hb.trans hle) hrange
  have hheld : OnWatch G b
      { n with queue := { n.queue with jobToSlot := index, wheel := n.queue.wheel.add slot.key } } :=
    { noCold := h.noCold
      slotGap := h.slotGap
      rests := Or.inr hadd
      ahead := by
        intro k hk
        rcases (hstands.holds_add slot.key k).mp hk with hk | rfl
        · exact h.ahead k hk
        · exact hle
      filed := h.filed
      held := fun k s hs => (hstands.holds_add slot.key k).mpr (Or.inl (h.held k s hs)) }
  exact hheld.createSlot ((hstands.holds_add slot.key slot.key).mpr (Or.inr rfl)) thread faults

/-- **A job is added** to a slot that is not over. -/
lemma wp_addJob (h : OnWatch G b n) (hb : 0 ≤ b) (hbK : b ≤ K) {job : Job}
    (hdue : ∀ time ∈ job.dueTime, K ≤ time.tdiv G.gap ∧ InRange time) :
    wp (handle queueThread) (DuringSlot G.gap K) (addJob job)
      (fun _ n' => (∃ b', (b' = b ∨ b' = K) ∧ OnWatch G b' n') ∧
        n'.queue.jobToSlot
          = (job.dueTime.map fun time => n.queue.jobToSlot.insert job.id (time.tdiv G.gap)).getD
              n.queue.jobToSlot) n := by
  unfold addJob
  cases htime : job.dueTime with
  | none => exact ⟨⟨b, Or.inl rfl, h⟩, rfl⟩
  | some time =>
    obtain ⟨hle, hrange⟩ := hdue time htime
    simp only [slotGapSeconds, perform_bind, wp_step]
    intro e _
    simp only [handle, h.slotGap]
    refine wp_seq h.wp_ensureInit ?_
    rintro _ n1 ⟨-, hindex, b', hb', h1, hstands⟩
    refine wp_bind.mpr (Store.wp_getSlot fun e1 _ => ?_)
    simp only [FSM.getSlot_of_none h1.noCold]
    have hstable : ∀ {β : Type} (a : Act β) (e : Env) (n : Node), DuringSlot G.gap K e → e.Stable :=
      fun _ e _ he => he.1
    refine wp_bind.mpr (Store.wpWith_ifLeader hstable (Store.wpWith_propose hstable fun e2 _ => ?_))
    refine wp_bind.mpr fun e3 _ => ?_
    intro e4 _
    refine ⟨⟨b', hb', ?_⟩, ?_⟩
    · have hadded : ∀ slot : SlotData, slot.key = time.tdiv G.gap →
          OnWatch G b'
            { n1.applyCommand queueThread e2.faults { type := .createSlot, slot := some slot } with
              queue :=
                { n1.queue with
                  jobToSlot := n1.queue.jobToSlot.insert job.id (time.tdiv G.gap)
                  wheel := n1.queue.wheel.add (time.tdiv G.gap) } } := by
        intro slot hslot
        rw [← hslot] at hle ⊢
        refine h1.add hstands ?_ ?_ ?_ queueThread e2.faults _
        · rcases hb' with rfl | rfl
          · exact hb
          · omega
        · rcases hb' with rfl | rfl
          · omega
          · exact hle
        · rw [hslot]
          exact hrange.tdiv_mul G.gap_pos
      cases hslot : n1.fsm.slots.lookup (time.tdiv G.gap) with
      | none => exact hadded _ rfl
      | some slot => exact hadded _ (h1.filed _ slot hslot)
    · show n1.queue.jobToSlot.insert job.id (time.tdiv G.gap) = _
      rw [hindex]
      rfl

/-! ## The next slot -/

/-- A slot of the present, or of later, if the wheel has moved on from the slot before. -/
def Follows (K b : ℤ) (n : Node) : Prop :=
  b = K ∨ b + 1 = K ∧ ∀ k slot, n.fsm.slots.lookup k = some slot → K ≤ k

/-- What `GetNextSlot` may return in slot `K`: the jobs of that slot, if it is in the store, and
otherwise nothing or a slot of later. -/
def NextIn (K : ℤ) (n : Node) (slot : Option Slot) : Prop :=
  (∃ data, n.fsm.slots.lookup K = some data ∧
      (data.jobIDs.filterMap n.fsm.jobs.lookup ≠ [] → slot = some
        ⟨K, data.minTime, data.maxTime, data.jobIDs.filterMap n.fsm.jobs.lookup⟩)) ∨
    n.fsm.slots.lookup K = none ∧
      ∀ s, slot = some s → ∃ k data, K < k ∧ n.fsm.slots.lookup k = some data ∧
        s.minTime = data.minTime

/-- `PeekMin` names the slot of the present if there is one. -/
lemma nextIn_peeked (h : OnWatch G K n) : NextIn K n (peeked n) := by
  have hkey : ∀ k, (k * G.gap).tdiv (seconds n.queue.slotGap) = k := fun k => by
    rw [h.slotGap]
    exact Int.mul_tdiv_cancel k G.gap_pos.ne'
  have hslotOf : ∀ k, n.fsm.slotOf k = (n.fsm.slots.lookup k).bind fun data =>
      if data.jobIDs.filterMap n.fsm.jobs.lookup = [] then none
      else some ⟨k, data.minTime, data.maxTime, data.jobIDs.filterMap n.fsm.jobs.lookup⟩ :=
        fun k => by
    rw [FSM.slotOf, FSM.getSlot_of_none h.noCold]
  cases hslot : n.fsm.slots.lookup K with
  | some data =>
    refine Or.inl ⟨data, hslot, fun hne => ?_⟩
    have hheld := h.held K data hslot
    have hstands := h.rests.standsAt hheld
    have hnonneg := mul_nonneg (hstands.nonneg hheld) G.gap_pos.le
    rw [peeked, hstands.peekMin hheld h.ahead, if_neg (by omega), hkey, hslotOf, hslot]
    exact if_neg hne
  | none =>
    refine Or.inr ⟨hslot, fun s hs => ?_⟩
    rcases h.rests.peekMin with hmin | ⟨k, hk, hmin⟩
    · rw [peeked, if_pos hmin] at hs
      cases hs
    · rw [peeked] at hs
      split_ifs at hs
      rw [hmin, hkey, hslotOf] at hs
      obtain ⟨data, hdata, hs⟩ := Option.bind_eq_some_iff.mp hs
      split_ifs at hs
      refine ⟨k, data, lt_of_le_of_ne (h.ahead k hk) ?_, hdata, ?_⟩
      · rintro rfl
        simp [hslot] at hdata
      · rw [← Option.some.inj hs]

/-- **The next slot**, asked for in slot `K`. -/
lemma wp_getNextSlot (h : OnWatch G b n) (hK : Follows K b n)
    (hneat : ∀ k slot, n.fsm.slots.lookup k = some slot → slot.jobIDs ≠ []) :
    wp (handle queueThread) (DuringSlot G.gap K) getNextSlot
      (fun slot n' => OnWatch G K n' ∧ n'.fsm = n.fsm ∧ n'.queue.jobToSlot = n.queue.jobToSlot ∧
        NextIn K n' slot) n := by
  refine wp_seq h.wp_ensureInit ?_
  rintro _ n1 ⟨hfsm1, hindex1, b', hb', h1, hstands⟩
  rw [perform_bind, wp_step]
  rintro e1 ⟨-, hrange, hnow⟩
  refine wp_bind.mpr fun e2 _ => ?_
  have hkeys : ∀ k slot, n1.fsm.slots.lookup k = some slot → b' < K → K ≤ k := by
    rw [hfsm1]
    rintro k slot hslot hlt
    rcases hK with rfl | ⟨-, hlater⟩
    · omega
    · exact hlater k slot hslot
  have hstep : e1.now.tdiv G.gap = b' ∨ e1.now.tdiv G.gap = b' + 1 := by
    rcases hK with rfl | ⟨hnext, -⟩
    · omega
    · omega
  obtain ⟨hmoved, hready, hkept⟩ := hstands.advance hrange hstep
  rw [hnow] at hmoved hready hkept
  -- the wheel after `Advance`
  have h2 : OnWatch G K
      { n1 with queue := { n1.queue with wheel := (n1.queue.wheel.advance e1.now).1 } } :=
    { noCold := h1.noCold
      slotGap := h1.slotGap
      rests := Or.inr hmoved
      ahead := by
        intro k hk
        obtain ⟨hheld, hlate⟩ := (hkept k).mp hk
        have hfrom := h1.ahead k hheld
        by_cases hlt : b' < K
        · exact hlate hlt
        · omega
      filed := h1.filed
      held := fun k slot hslot => (hkept k).mpr ⟨h1.held k slot hslot, hkeys k slot hslot⟩ }
  -- the keys that it returns have no slots
  refine wp_seq (wp_forEach (I := fun n' => OnWatch G K n' ∧ n'.fsm = n.fsm ∧
    n'.queue.jobToSlot = n.queue.jobToSlot) _ (fun k hk n' hn' => ?_) ⟨h2, hfsm1, hindex1⟩) ?_
  · obtain ⟨hn', hfsm, hindex⟩ := hn'
    refine wp_bind.mpr (Store.wp_getSlot fun e3 _ => ?_)
    simp only [FSM.getSlot_of_none hn'.noCold]
    cases hslot : n'.fsm.slots.lookup k with
    | none =>
      intro e4 _
      exact ⟨hn'.remove hslot, hfsm, hindex⟩
    | some slot =>
      refine wp_ite.mpr ⟨fun hempty => ?_, fun _ => ⟨hn', hfsm, hindex⟩⟩
      rw [hfsm] at hslot
      exact absurd hempty (hneat k slot hslot)
  · rintro _ n3 ⟨h3, hfsm3, hindex3⟩
    have hread : ∀ key readFails, n3.fsm.getSlot key readFails = n3.fsm.getSlot key false := by
      simp [FSM.getSlot_of_none h3.noCold]
    refine wp_mono (wp_peekSlot_eq fun _ _ key => hread key _) ?_
    rintro _ _ ⟨rfl, rfl⟩
    exact ⟨h3, hfsm3, hindex3, h3.nextIn_peeked⟩

end OnWatch

end ScheduledDb
