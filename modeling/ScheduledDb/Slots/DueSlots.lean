import ScheduledDb.Slots.PersistentSlots
import ScheduledDb.Slots.TimingWheel.Advance
import ScheduledDb.Slots.TimingWheel.Conservation
import ScheduledDb.Store.ColdSlots

/-!
# What `GetNextSlot` does to the slots that are due

`GetNextSlot` asks `Advance` for the keys whose slot is over and does nothing with those whose slot
still has jobs; it then returns the earliest slot that is *left* in the wheel.  A slot that ends
while jobs of it are waiting is thereby forgotten: nothing comes back to it.

`getNextSlot_keeps_iff` says exactly which slots survive a call, for every wheel, and what that
means for a wheel of chain geometry: a slot is forgotten by the call that moves the base past its
end, unless a second copy of its key is still on its way (`Ahead`).
-/

namespace ScheduledDb

open Machine Program HierarchicalTimingWheel List

/-! ## The wheel -/

namespace HierarchicalTimingWheel

variable {w : HierarchicalTimingWheel}

/-- `Advance(now)` returns the key and does not keep it. -/
def Forgets (w : HierarchicalTimingWheel) (now key : ℤ) : Prop :=
  key ∈ (w.advance now).2 ∧ ¬ (w.advance now).1.Holds key

/-- In a wheel of chain geometry a held key is forgotten by the call that moves the base past the
end of its slot, unless it is also held ahead of its time. -/
lemma Seated.forgets_iff {G : WheelGeometry} {b0 : ℤ} {t : ℕ} (h : w.Seated G b0 t (G.turns t))
    {now : ℤ} (hbase : InRange (w.baseAt now))
    (hrange : ∀ k, w.Holds k → KeyInRange G (w.baseAt now) k) {k : ℤ} (hk : w.Holds k) :
    w.Forgets now k ↔ w.currentBase < w.baseAt now ∧ (k + 1) * G.gap ≤ w.baseAt now ∧
      ¬ w.Ahead G b0 (G.turns t) k := by
  rcases le_or_gt (w.baseAt now) w.currentBase with hle | hgt
  · have hnot : ¬ w.currentBase < w.baseAt now := not_lt.mpr hle
    simp [Forgets, advance_of_le hle, hnot]
  · obtain ⟨m, hm⟩ : ∃ m : ℤ, w.baseAt now = m * G.gap := ⟨_, by rw [baseAt, h.fits.gap]⟩
    have hlt : b0 + t < m := by
      rw [hm, h.base] at hgt
      exact lt_of_mul_lt_mul_right hgt G.gap_pos.le
    obtain ⟨n, hn⟩ : ∃ n : ℕ, m = b0 + (t + n) := ⟨(m - b0 - t).toNat, by omega⟩
    subst hn
    have hadv := advance_spec h (by omega) hm hbase hrange
    have hover : k - b0 < t + n ↔ (k + 1) * G.gap ≤ w.baseAt now := by
      rw [hm, mul_le_mul_iff_of_pos_right G.gap_pos]
      omega
    rw [Forgets, hadv.ready, hadv.holds, ← hover]
    have hheld := (holds_iff w G b0 (G.turns t) k).mp hk
    constructor
    · rintro ⟨⟨_, hend⟩, hnot⟩
      exact ⟨hgt, hend, fun ha => hnot (Or.inr ha)⟩
    · rintro ⟨_, hend, hahead⟩
      have htimely := hheld.resolve_right hahead
      refine ⟨⟨htimely, hend⟩, ?_⟩
      rintro (⟨_, hlater⟩ | ha)
      · omega
      · exact hahead ha

/-- Taking other keys out of the wheel leaves a key where it is. -/
lemma holds_removeAll_of_notMem {keys : List ℤ} {k : ℤ} (hk : k ∉ keys) :
    (keys.foldl remove w).Holds k ↔ w.Holds k := by
  induction keys generalizing w with
  | nil => rfl
  | cons key rest ih =>
    rw [mem_cons, not_or] at hk
    rw [foldl_cons, ih hk.2, holds_remove_of_ne hk.1]

lemma holds_of_removeAll {keys : List ℤ} {k : ℤ} (h : (keys.foldl remove w).Holds k) :
    w.Holds k := by
  induction keys generalizing w with
  | nil => exact h
  | cons key rest ih => exact holds_of_remove (ih h)

end HierarchicalTimingWheel

/-! ## The store -/

namespace FSM

/-- The slot exists, in memory or in the cold store, and has jobs. -/
def Live (f : FSM) (key : ℤ) : Prop :=
  ∃ slot, f.getSlot key false = some slot ∧ slot.jobIDs ≠ []

instance (f : FSM) (key : ℤ) : Decidable (f.Live key) :=
  decidable_of_iff ((f.getSlot key false).any (·.jobIDs ≠ [])) (by simp [Live, Option.any_eq_true])

/-- A slot that is looked up and found empty, or not found, is not live. -/
lemma not_live_of_getSlot {f : FSM} {key : ℤ}
    (h : ∀ slot, f.getSlot key false = some slot → slot.jobIDs = []) : ¬ f.Live key := by
  rintro ⟨slot, hslot, hne⟩
  exact hne (h slot hslot)

end FSM

/-! ## The call -/

namespace PersistentSlotQueue

/-- What every state of the queue satisfies: the wheel's levels have their buckets, and keys are
`int64`. -/
structure Valid (q : PersistentSlotQueue) : Prop where
  wheel : q.wheel.WellFormed
  keys : ∀ k, q.wheel.Holds k → InRange k

/-- No read of the cold store fails. -/
def ReadsColdStore (e : Env) : Prop := e.faults.get = none

/-- What the loop of `GetNextSlot` leaves alone: which slots have jobs, and of those, which the
wheel holds. -/
def SameDue (n n' : Node) : Prop :=
  (∀ k, n'.fsm.Live k ↔ n.fsm.Live k) ∧
    ∀ k, n.fsm.Live k → (n'.queue.wheel.Holds k ↔ n.queue.wheel.Holds k)

/-- What the loop of `GetNextSlot` may do: delete slots without jobs, and take the given keys, of such
slots or of none, out of the wheel. -/
structure Tidied (n : Node) (dead : List ℤ) (n' : Node) : Prop where
  jobs : n'.fsm.jobs = n.fsm.jobs
  slots : ∀ k, n'.fsm.getSlot k false = n.fsm.getSlot k false ∨
    n'.fsm.getSlot k false = none ∧ ¬ n.fsm.Live k
  notLive : ∀ k ∈ dead, ¬ n.fsm.Live k
  wheel : n'.queue.wheel = dead.foldl HierarchicalTimingWheel.remove n.queue.wheel
  slotGap : n'.queue.slotGap = n.queue.slotGap

section Tidied

variable {thread : ℕ} {n n' : Node} {dead : List ℤ} {key : ℤ}

lemma Tidied.refl (n : Node) : Tidied n [] n :=
  ⟨rfl, fun _ => Or.inl rfl, by simp, rfl, rfl⟩

/-- A slot with jobs is as it was. -/
lemma Tidied.getSlot (h : Tidied n dead n') {k : ℤ} (hk : n.fsm.Live k) :
    n'.fsm.getSlot k false = n.fsm.getSlot k false :=
  (h.slots k).resolve_right fun hdead => hdead.2 hk

lemma Tidied.live_iff (h : Tidied n dead n') (k : ℤ) : n'.fsm.Live k ↔ n.fsm.Live k := by
  constructor
  · rintro ⟨slot, hslot, hne⟩
    rcases h.slots k with hsame | ⟨hnone, -⟩
    · exact ⟨slot, hsame ▸ hslot, hne⟩
    · simp [hnone] at hslot
  · rintro ⟨slot, hslot, hne⟩
    exact ⟨slot, (h.getSlot ⟨slot, hslot, hne⟩).trans hslot, hne⟩

lemma Tidied.sameDue (h : Tidied n dead n') : SameDue n n' := by
  refine ⟨h.live_iff, fun k hk => ?_⟩
  rw [h.wheel]
  refine holds_removeAll_of_notMem fun hmem => ?_
  exact h.notLive k hmem hk

lemma Tidied.remove (h : Tidied n dead n') (hdead : ¬ n.fsm.Live key) :
    Tidied n (dead ++ [key])
      { n' with queue := { n'.queue with wheel := n'.queue.wheel.remove key } } := by
  refine ⟨h.jobs, h.slots, fun k hk => ?_, ?_, h.slotGap⟩
  · rcases mem_append.mp hk with hk | hk
    · exact h.notLive k hk
    · rwa [mem_singleton.mp hk]
  · rw [foldl_append, ← h.wheel]
    rfl

lemma Tidied.deleteSlot (h : Tidied n dead n') (hkey : InRange key) (hdead : ¬ n.fsm.Live key)
    (thread : ℕ) (faults : ColdFaults) :
    Tidied n dead (n'.applyCommand thread faults { type := .deleteSlot, id := printKey key }) := by
  have heffect := FSM.effect_deleteSlot faults n'.fsm hkey
  refine ⟨?_, fun k => ?_, h.notLive, h.wheel, h.slotGap⟩
  · rw [Node.applyCommand_fsm, heffect]
    exact h.jobs
  · rw [Node.applyCommand_fsm, heffect, FSM.getSlot_dropSlot]
    split_ifs with hk
    · exact Or.inr ⟨rfl, hk ▸ hdead⟩
    · exact h.slots k

/-- Dropping a dead slot concerns no live one. -/
lemma dropIfDead_tidied (hkey : InRange key) (h : Tidied n dead n') :
    wp (handle thread) ReadsColdStore (dropIfDead key)
      (fun _ => Tidied n (dead ++ [key].filter fun k => ¬ n.fsm.Live k)) n' := by
  refine wp_bind.mpr (Store.wp_getSlot fun e he => ?_)
  have hread : n'.fsm.getSlot key e.faults.get.isSome = n'.fsm.getSlot key false := by rw [he]; rfl
  rw [hread]
  cases hslot : n'.fsm.getSlot key false with
  | none =>
    have hdead : ¬ n.fsm.Live key := by
      rw [← h.live_iff]
      exact FSM.not_live_of_getSlot (by simp [hslot])
    rw [filter_cons_of_pos (by simpa using hdead), filter_nil]
    intro e' _
    exact h.remove hdead
  | some slotData =>
    simp only [wp_ite, wheelRemove, onWheel, Store.ifLeader, Store.deleteSlot, perform_bind, wp_step,
      wp_bind]
    refine ⟨fun hempty e' _ e'' _ => ?_, fun hne => ?_⟩
    · have hdead : ¬ n.fsm.Live key := by
        rw [← h.live_iff]
        exact FSM.not_live_of_getSlot (by simp [hslot, hempty])
      rw [filter_cons_of_pos (by simpa using hdead), filter_nil]
      have hremoved := h.remove hdead
      refine ⟨fun _ => Store.wp_propose (fun _ => hremoved) fun _ faults => ?_, fun _ => hremoved⟩
      exact hremoved.deleteSlot hkey hdead thread faults
    · have hlive : n.fsm.Live key := (h.live_iff key).mp ⟨slotData, hslot, hne⟩
      rw [filter_cons_of_neg (by simpa using hlive), filter_nil, append_nil]
      exact h

/-- **The loop.**  Of the keys that `Advance` has returned it takes those out of the wheel whose slots
are missing or have no jobs. -/
lemma dropDead_tidied {keys : List ℤ} (hkeys : ∀ k ∈ keys, InRange k) (h : Tidied n dead n') :
    wp (handle thread) ReadsColdStore (forEach keys dropIfDead)
      (fun _ => Tidied n (dead ++ keys.filter fun k => ¬ n.fsm.Live k)) n' := by
  induction keys generalizing dead n' with
  | nil =>
    rw [filter_nil, append_nil]
    exact h
  | cons key rest ih =>
    rw [forall_mem_cons] at hkeys
    refine wp_seq (dropIfDead_tidied hkeys.1 h) fun _ n1 h1 => ?_
    rw [← singleton_append, filter_append, ← append_assoc]
    exact ih hkeys.2 h1

end Tidied

variable {ok : Env → Prop} {n' n : Node} {thread : ℕ}

/-- `PeekMin` and the rest of the call only read. -/
lemma collectJobs_sameDue (ids : List String) (h : SameDue n n') :
    wp (handle thread) ok (collectJobs ids) (fun _ => SameDue n) n' := by
  induction ids with
  | nil => exact h
  | cons jobID rest ih =>
    simp only [collectJobs, perform_bind, wp_step, wp_bind]
    intro e _
    exact wp_mono ih fun _ s hs => hs

lemma peekSlot_sameDue (h : SameDue n n') :
    wp (handle thread) ok peekSlot (fun _ => SameDue n) n' := by
  simp only [peekSlot, onWheel, slotGapSeconds, perform_bind, wp_step, wp_ite]
  refine fun e _ => ⟨fun _ => h, fun _ e' _ => wp_bind.mpr (Store.wp_getSlot fun e'' _ => ?_)⟩
  cases FSM.getSlot _ _ e''.faults.get.isSome with
  | none => exact h
  | some slotData =>
    simp only [wp_bind, wp_ite]
    exact wp_mono (collectJobs_sameDue slotData.jobIDs h) fun _ _ hs => ⟨fun _ => hs, fun _ => hs⟩

/-- The loop and what comes after it. -/
lemma dropDead_sameDue (thread : ℕ) (n : Node) {keys : List ℤ} (hkeys : ∀ k ∈ keys, InRange k) :
    wp (handle thread) ReadsColdStore (forEach keys dropIfDead >>= fun _ => peekSlot)
      (fun _ => SameDue n) n := by
  rw [wp_bind]
  exact wp_mono (dropDead_tidied hkeys (Tidied.refl n)) fun _ _ hs => peekSlot_sameDue hs.sameDue

/-- The time at which `GetNextSlot` calls `Advance`: its first look at the clock, or the second if
the wheel had to be started. -/
def advanceTime (q : PersistentSlotQueue) (env : ℕ → Env) : ℤ :=
  if q.wheel.initialized then (env 1).now else (env 3).now

/-- The wheel that `GetNextSlot` hands to `Advance`. -/
def started (q : PersistentSlotQueue) (env : ℕ → Env) : HierarchicalTimingWheel :=
  q.wheel.init (env 1).now

/-- `GetNextSlot` up to `Advance`. -/
lemma run_getNextSlot (thread : ℕ) (n : Node) (env : ℕ → Env) :
    ∃ shift, run (handle thread) getNextSlot env n =
      run (handle thread)
        (forEach ((n.queue.started env).advance (n.queue.advanceTime env)).2 dropIfDead
          >>= fun _ => peekSlot) (fun i => env (i + shift))
        { n with
          queue := { n.queue with
            wheel := ((n.queue.started env).advance (n.queue.advanceTime env)).1 } } := by
  cases hinit : n.queue.wheel.initialized with
  | true =>
    refine ⟨3, ?_⟩
    have hstarted : n.queue.started env = n.queue.wheel := by
      simp [started, init, hinit]
    simp only [hstarted, advanceTime, hinit, if_true]
    simp [getNextSlot, ensureInit, onWheel, handle, hinit]
  | false =>
    refine ⟨5, ?_⟩
    simp [getNextSlot, ensureInit, onWheel, handle, hinit, advanceTime, started]

/-- **Which slots survive `GetNextSlot`.**  All slots with jobs that the wheel held are held
afterwards exactly if `Advance` forgets none of them; and in a wheel of chain geometry it forgets
those whose slot is over when the base has moved, except the ones held ahead of their time. -/
theorem getNextSlot_keeps_iff (thread : ℕ) (n : Node) (env : ℕ → Env) (hvalid : n.queue.Valid)
    (hcold : ∀ i, ReadsColdStore (env i)) :
    ((∀ k, n.queue.wheel.Holds k → (run (handle thread) getNextSlot env n).1.fsm.Live k →
        (run (handle thread) getNextSlot env n).1.queue.wheel.Holds k) ↔
      ∀ k, n.fsm.Live k → ¬ (n.queue.started env).Forgets (n.queue.advanceTime env) k) ∧
    ∀ (G : WheelGeometry) (b0 : ℤ) (t : ℕ), (n.queue.started env).Seated G b0 t (G.turns t) →
      InRange ((n.queue.started env).baseAt (n.queue.advanceTime env)) →
      (∀ k, n.queue.wheel.Holds k → KeyInRange G
        ((n.queue.started env).baseAt (n.queue.advanceTime env)) k) →
      ∀ k, n.queue.wheel.Holds k →
        ((n.queue.started env).Forgets (n.queue.advanceTime env) k ↔
          (n.queue.started env).currentBase
              < (n.queue.started env).baseAt (n.queue.advanceTime env) ∧
            (k + 1) * G.gap ≤ (n.queue.started env).baseAt (n.queue.advanceTime env) ∧
            ¬ (n.queue.started env).Ahead G b0 (G.turns t) k) := by
  have hheld : ∀ k, n.queue.wheel.Holds k ↔ (n.queue.started env).Holds k := fun k =>
    (holds_init (env 1).now k).symm
  have hsplit : ∀ k, n.queue.wheel.Holds k ↔
      ((n.queue.started env).advance (n.queue.advanceTime env)).1.Holds k ∨
        k ∈ ((n.queue.started env).advance (n.queue.advanceTime env)).2 := fun k =>
    (hheld k).trans
      (holds_advance (hvalid.wheel.init (env 1).now) _ k)
  refine ⟨?_, ?_⟩
  · obtain ⟨shift, hrun⟩ := run_getNextSlot thread n env
    have hwp := dropDead_sameDue thread
      { n with
        queue := { n.queue with
          wheel := ((n.queue.started env).advance (n.queue.advanceTime env)).1 } }
      fun k hk => hvalid.keys k ((hsplit k).mpr (Or.inr hk))
    have hsame := wp_run hwp fun i => hcold (i + shift)
    rw [← hrun] at hsame
    obtain ⟨hlive, hwheel⟩ := hsame
    constructor
    · rintro h k hk ⟨hready, hgone⟩
      exact hgone ((hwheel k hk).mp (h k ((hsplit k).mpr (Or.inr hready)) ((hlive k).mpr hk)))
    · intro h k hk hk'
      have hkl := (hlive k).mp hk'
      rw [hwheel k hkl]
      by_contra hgone
      exact h k hkl ⟨((hsplit k).mp hk).resolve_left hgone, hgone⟩
  · intro G b0 t hseated hbase hrange k hk
    exact hseated.forgets_iff hbase (fun k hk => hrange k ((hheld k).mpr hk)) ((hheld k).mp hk)

/-- A leader with slots of ten seconds that has accepted, at second 0, a job due at second 5. -/
def waitingNode : Node :=
  (run (handle 0)
    (Store.createJob jobEventHandler { id := "a", type := .unico, timestamp := some 5 })
    (fun _ => Env.calm 0)
    { fsm := newFSM
      queue := newPersistentSlotQueueWithConfig defaultSlotGap
        [⟨10000000000, 6⟩, ⟨60000000000, 4⟩] }).1

lemma waitingNode_keys : waitingNode.queue.wheel.keys = [0] := by decide +kernel

lemma waitingNode_valid : waitingNode.queue.Valid := by
  refine ⟨⟨by decide +kernel, by decide +kernel, by decide +kernel⟩, fun k hk => ?_⟩
  rw [holds_iff_mem_keys, waitingNode_keys, mem_singleton] at hk
  subst hk
  decide

/-- Before the end of the slot nothing is forgotten. -/
theorem getNextSlot_keeps_before_boundary :
    waitingNode.queue.Valid ∧ ∀ k, waitingNode.queue.wheel.Holds k →
      (run (handle 0) getNextSlot (fun _ => Env.calm 5) waitingNode).1.fsm.Live k →
      (run (handle 0) getNextSlot (fun _ => Env.calm 5) waitingNode).1.queue.wheel.Holds k := by
  refine ⟨waitingNode_valid, ?_⟩
  refine (getNextSlot_keeps_iff 0 waitingNode (fun _ => Env.calm 5) waitingNode_valid
    fun _ => rfl).1.mpr ?_
  rintro k - ⟨hready, -⟩
  have hnone : ((waitingNode.queue.started fun _ => Env.calm 5).advance
      (waitingNode.queue.advanceTime fun _ => Env.calm 5)).2 = [] := by decide +kernel
  rw [hnone] at hready
  exact absurd hready not_mem_nil

/-- **A due slot is dropped**: the first call after the end of the slot loses it, with its job still
in the store. -/
theorem getNextSlot_forgets_due_slot :
    waitingNode.queue.wheel.Holds 0 ∧
      (run (handle 0) getNextSlot (fun _ => Env.calm 10) waitingNode).1.fsm.Live 0 ∧
      ¬ (run (handle 0) getNextSlot (fun _ => Env.calm 10) waitingNode).1.queue.wheel.Holds 0 := by
  refine ⟨by decide +kernel, ⟨⟨0, 0, 9, ["a"]⟩, by decide +kernel, by decide⟩, by decide +kernel⟩

end PersistentSlotQueue

end ScheduledDb
