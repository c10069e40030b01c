import ScheduledDb.Slots.SlotEviction
import ScheduledDb.Slots.TimingWheel.Places
import ScheduledDb.Slots.Worker
import ScheduledDb.Store.Commuting

/-!
# Does the evictor strand jobs?

A pass of the evictor archives every slot that ended before the hot window and takes its key out of
the wheel, whether or not jobs of the slot are still to be executed.  The worker finds slots through
the wheel only, so such a job waits for a restart, when `LoadJobs` enters the cold slots again
(`evict_strands`).  The second loop cannot bring the key back: it promotes slots that begin within
the window, and these have just ended before it.

`evict_spares_iff`: a pass loses no key of a live job exactly if no slot that it archives and that
the wheel holds lists one, keys the wheel holds twice apart.
-/

namespace ScheduledDb

open Machine Program Footprint HierarchicalTimingWheel

/-! ## What `Remove` leaves behind -/

namespace HierarchicalTimingWheel

variable {w : HierarchicalTimingWheel}

/-- An entry for the key that is not the recorded one. -/
def StrayCopy (w : HierarchicalTimingWheel) (k : ℤ) : Prop :=
  (∃ i j, w.At k i j ∧ w.slotLocation.lookup k ≠ some ⟨i, j⟩) ∨
    (k ∈ w.overflow ∧ w.slotLocation.lookup k ≠ none)

/-- The key is still held after `Remove` if there was a second entry. -/
lemma holds_remove_self (w : HierarchicalTimingWheel) (k : ℤ) :
    (w.remove k).Holds k ↔ w.StrayCopy k := by
  simp [Holds, StrayCopy, at_remove, mem_overflow_remove]

lemma strayCopy_remove_of_ne {k k' : ℤ} (hne : k ≠ k') :
    (w.remove k').StrayCopy k ↔ w.StrayCopy k := by
  simp [StrayCopy, at_remove, mem_overflow_remove, lookup_remove, hne]

instance (w : HierarchicalTimingWheel) (k : ℤ) : Decidable (w.StrayCopy k) :=
  decidable_of_iff _ (w.holds_remove_self k)

end HierarchicalTimingWheel

/-! ## Moving other slots -/

namespace FSM

variable {f g : FSM} {k : ℤ}

/-- What `GetSlot` shows depends on what is kept in the place of the slot. -/
lemma getSlot_of_content (h : f.content (.slot k) = g.content (.slot k)) (readFails : Bool) :
    f.getSlot k readFails = g.getSlot k readFails := by
  obtain ⟨hhot, hmark, hcold⟩ := Content.slot.inj h
  have hmark : k ∈ f.coldSlotMeta ↔ k ∈ g.coldSlotMeta := by simpa [isSlotCold] using hmark
  simp only [getSlot_eq, coldCopy, hhot, hmark, hcold]

lemma content_archiveSlot_of_ne {slot : SlotData} (hne : k ≠ slot.key) (faults : ColdFaults)
    (f : FSM) :
    (f.apply faults { type := .archiveSlot, coldSlot := some slot }).1.content (.slot k)
      = f.content (.slot k) := by
  refine content_apply_of_notMem ?_ faults f
  simpa [Command.footprint] using hne

lemma content_unarchiveSlot_of_ne {key : ℤ} (hne : k ≠ key) (faults : ColdFaults) (f : FSM) :
    (f.apply faults { type := .unarchiveSlot, id := printKey key }).1.content (.slot k)
      = f.content (.slot k) := by
  refine content_apply_of_notMem ?_ faults f
  simp only [Command.footprint, scanKey_printKey_eq]
  split_ifs <;> simp [hne]

/-- An archived slot is shown as it was, if it is shown. -/
lemma shown_archiveSlot {slot : SlotData} (hhot : f.slots.lookup slot.key = some slot)
    (faults : ColdFaults) {readFails : Bool} {found : SlotData}
    (hfound : (f.apply faults { type := .archiveSlot, coldSlot := some slot }).1.getSlot slot.key
      readFails = some found) : found = slot := by
  rw [apply_fst] at hfound
  simp only [effect, Command.wire] at hfound
  split_ifs at hfound with hcold
  · cases hstore : f.coldStore with
    | none => simp [hstore] at hcold
    | some c =>
      simp [Effect.act, getSlot_eq, coldCopy, hstore] at hfound
      exact hfound.2.symm
  · rw [Effect.act, getSlot_eq, hhot] at hfound
    exact (Option.some.inj hfound).symm

end FSM

/-! ## The two loops -/

namespace SlotEvictor

variable {se : SlotEvictor} {thread : ℕ} {n : Node} {thr : ℤ} {Q : Unit → Node → Prop}
  {key hotWindowSeconds k : ℤ} {x : Σ _ : ℤ, SlotData}

/-- A change of the wheel, if there is one. -/
lemma wp_onWheel {f : HierarchicalTimingWheel → HierarchicalTimingWheel} (h : ∀ n', n'.fsm = n.fsm →
      n'.queue.wheel = (if se.wheel = true then f n.queue.wheel else n.queue.wheel) → Q () n') :
    wp (handle thread) Env.Stable
      (if se.wheel = true then PersistentSlotQueue.onWheel fun w => (f w, ()) else pure ()) Q
      n := by
  refine wp_ite.mpr ⟨fun hwheel => ?_, fun hwheel => h n rfl (if_neg hwheel).symm⟩
  intro e _
  exact h _ rfl (if_pos hwheel).symm

lemma wellFormed_removed {w w' : HierarchicalTimingWheel} (h : w.WellFormed)
    (hwheel : w' = if se.wheel = true then w.remove key else w) : w'.WellFormed := by
  rw [hwheel]
  split_ifs
  · exact h.remove key
  · exact h

/-- What the first loop does with a slot. -/
lemma wp_evictSlot
    (hkeep : (x.2.maxTime < thr → ∃ readFails, n.fsm.getSlot x.1 readFails = none) → Q () n)
    (hmove : x.2.maxTime < thr → ∀ slot readFails faults n',
      n.fsm.getSlot x.1 readFails = some slot →
      n'.fsm = (n.fsm.apply faults { type := .archiveSlot, coldSlot := some slot }).1 →
      n'.queue.wheel = (if se.wheel = true then n.queue.wheel.remove x.1 else n.queue.wheel) →
      Q () n') : wp (handle thread) Env.Stable (se.evictSlot thr x) Q n := by
  refine wp_ite.mpr ⟨fun hold => wp_bind.mpr ?_, fun hyoung => hkeep fun hold => absurd hold hyoung⟩
  rw [Store.archiveSlot, perform_bind, wp_step]
  intro e he
  refine wp_ite.mpr ⟨fun _ => ?_, fun hno => absurd he.1 hno⟩
  refine wp_bind.mpr (Store.wp_getSlot fun e1 _ => ?_)
  simp only [handle]
  cases hslot : n.fsm.getSlot x.1 e1.faults.get.isSome with
  | none => exact hkeep fun _ => ⟨_, hslot⟩
  | some slot =>
    refine Store.wpWith_raftApply (fun _ _ _ hg => hg) fun e2 _ => wp_onWheel ?_
    intro n' hfsm hwheel
    exact hmove hold slot _ e2.faults n' hslot hfsm hwheel

/-- What the second loop does with a key. -/
lemma wp_promoteSlot (hkeep : Q () n)
    (hmove : ∀ slot readFails faults n', n.fsm.getSlot key readFails = some slot →
      thr ≤ slot.minTime →
      n'.fsm = (n.fsm.apply faults { type := .unarchiveSlot, id := printKey key }).1 →
      n'.queue.wheel = (if se.wheel = true then n.queue.wheel.add key else n.queue.wheel) →
      Q () n') : wp (handle thread) Env.Stable (se.promoteSlot thr hotWindowSeconds key) Q n := by
  refine wp_bind.mpr (Store.wp_getSlot fun e _ => ?_)
  cases hslot : n.fsm.getSlot key e.faults.get.isSome with
  | none => exact hkeep
  | some slot =>
    refine wp_ite.mpr ⟨fun hnear => wp_bind.mpr ?_, fun _ => hkeep⟩
    refine Store.wpWith_propose (fun _ _ _ hg => hg) fun e1 _ => wp_onWheel ?_
    intro n' hfsm hwheel
    exact hmove slot _ e1.faults n' hslot hnear.1 hfsm hwheel

/-! ## A key that stays -/

/-- The wheel holds the key. -/
structure Held (k : ℤ) (n : Node) : Prop where
  wellFormed : n.queue.wheel.WellFormed
  holds : n.queue.wheel.Holds k

lemma held_evictSlot (hx : se.wheel = true → x.2.maxTime < thr → k ≠ x.1) (h : Held k n) :
    wp (handle thread) Env.Stable (se.evictSlot thr x) (fun _ => Held k) n := by
  refine wp_evictSlot (fun _ => h) fun hold slot _ _ n' _ _ hwheel => ?_
  refine ⟨wellFormed_removed h.wellFormed hwheel, ?_⟩
  rw [hwheel]
  split_ifs with hse
  · rw [holds_remove_of_ne (hx hse hold)]
    exact h.holds
  · exact h.holds

lemma held_promoteSlot (h : Held k n) :
    wp (handle thread) Env.Stable (se.promoteSlot thr hotWindowSeconds key) (fun _ => Held k)
      n := by
  refine wp_promoteSlot h fun slot _ _ n' _ _ _ hwheel => ?_
  obtain ⟨hwf, hholds⟩ := add_keeps h.wellFormed key
  split_ifs at hwheel
  · exact ⟨hwheel ▸ hwf, hwheel ▸ (hholds k).mpr (Or.inl h.holds)⟩
  · exact ⟨hwheel ▸ h.wellFormed, hwheel ▸ h.holds⟩

/-! ## A key that goes -/

/-- The first loop has not come to the slot yet. -/
structure Waiting (n0 : Node) (k : ℤ) (n : Node) : Prop where
  filed : n.fsm.Filed
  wellFormed : n.queue.wheel.WellFormed
  content : n.fsm.content (.slot k) = n0.fsm.content (.slot k)
  stray : n.queue.wheel.StrayCopy k ↔ n0.queue.wheel.StrayCopy k

/-- The slot has been archived, or would have been, and its key removed. -/
structure Gone (n0 : Node) (k : ℤ) (slot : SlotData) (n : Node) : Prop where
  filed : n.fsm.Filed
  wellFormed : n.queue.wheel.WellFormed
  shown : ∀ readFails found, n.fsm.getSlot k readFails = some found → found = slot
  holds : n.queue.wheel.Holds k ↔ n0.queue.wheel.StrayCopy k

variable {n0 : Node} {k : ℤ} {slot : SlotData}

lemma waiting_evictSlot (hne : k ≠ x.1) (h : Waiting n0 k n) :
    wp (handle thread) Env.Stable (se.evictSlot thr x) (fun _ => Waiting n0 k) n := by
  refine wp_evictSlot (fun _ => h) fun _ found _ faults n' hfound hfsm hwheel => ?_
  have hkey : k ≠ found.key := by
    rw [h.filed.getSlot hfound]
    exact hne
  refine ⟨?_, ?_, ?_, ?_⟩
  · rw [hfsm]
    exact h.filed.apply faults _
  · exact wellFormed_removed h.wellFormed hwheel
  · rw [hfsm, FSM.content_archiveSlot_of_ne hkey]
    exact h.content
  · rw [hwheel]
    split_ifs
    · rw [strayCopy_remove_of_ne hne]
      exact h.stray
    · exact h.stray

/-- **The slot itself**: whatever becomes of it in the store, its key leaves the wheel. -/
lemma gone_evictSlot_self (hse : se.wheel = true) (hhot : n0.fsm.slots.lookup k = some slot)
    (hold : slot.maxTime < thr) (h : Waiting n0 k n) :
    wp (handle thread) Env.Stable (se.evictSlot thr ⟨k, slot⟩) (fun _ => Gone n0 k slot) n := by
  have hhot : n.fsm.slots.lookup k = some slot := by
    rw [(Content.slot.inj h.content).1]
    exact hhot
  have hshown : ∀ readFails, n.fsm.getSlot k readFails = some slot := by
    intro readFails
    rw [FSM.getSlot_eq, hhot, Option.some_or]
  obtain rfl : slot.key = k := h.filed.slots k slot hhot
  refine wp_evictSlot (fun hmissing => ?_) fun _ found readFails faults n' hfound hfsm hwheel => ?_
  · obtain ⟨readFails, hnone⟩ := hmissing hold
    rw [hshown readFails] at hnone
    cases hnone
  · obtain rfl : slot = found := Option.some.inj ((hshown readFails).symm.trans hfound)
    rw [if_pos hse] at hwheel
    refine ⟨?_, ?_, fun b found' hfound' => ?_, ?_⟩
    · rw [hfsm]
      exact h.filed.apply faults _
    · rw [hwheel]
      exact h.wellFormed.remove _
    · rw [hfsm] at hfound'
      exact FSM.shown_archiveSlot hhot faults hfound'
    · rw [hwheel, holds_remove_self]
      exact h.stray

lemma gone_evictSlot (hne : k ≠ x.1) (h : Gone n0 k slot n) :
    wp (handle thread) Env.Stable (se.evictSlot thr x) (fun _ => Gone n0 k slot) n := by
  refine wp_evictSlot (fun _ => h) fun _ found _ faults n' hfound hfsm hwheel => ?_
  have hkey : k ≠ found.key := by
    rw [h.filed.getSlot hfound]
    exact hne
  refine ⟨?_, ?_, fun b found' hfound' => ?_, ?_⟩
  · rw [hfsm]
    exact h.filed.apply faults _
  · exact wellFormed_removed h.wellFormed hwheel
  · rw [hfsm, FSM.getSlot_of_content (FSM.content_archiveSlot_of_ne hkey faults n.fsm)] at hfound'
    exact h.shown b found' hfound'
  · rw [hwheel]
    split_ifs
    · rw [holds_remove_of_ne hne]
      exact h.holds
    · exact h.holds

/-- A slot that ended before the window does not begin within it. -/
lemma gone_promoteSlot (hold : slot.minTime < thr) (h : Gone n0 k slot n) :
    wp (handle thread) Env.Stable (se.promoteSlot thr hotWindowSeconds key)
      (fun _ => Gone n0 k slot) n := by
  refine wp_promoteSlot h fun found readFails faults n' hfound hnear hfsm hwheel => ?_
  have hne : k ≠ key := by
    rintro rfl
    rw [h.shown readFails found hfound] at hnear
    exact absurd hold (Int.not_lt.mpr hnear)
  obtain ⟨hwf, hholds⟩ := add_keeps h.wellFormed key
  refine ⟨?_, ?_, fun b found' hfound' => ?_, ?_⟩
  · rw [hfsm]
    exact h.filed.apply faults _
  · rw [hwheel]
    split_ifs
    · exact hwf
    · exact h.wellFormed
  · rw [hfsm, FSM.getSlot_of_content (FSM.content_unarchiveSlot_of_ne hne faults n.fsm)] at hfound'
    exact h.shown b found' hfound'
  · rw [hwheel]
    split_ifs
    · rw [hholds, or_iff_left hne]
      exact h.holds
    · exact h.holds

/-! ## A pass -/

/-- The two loops of `evict`. -/
def sweep (se : SlotEvictor) (hotThreshold hotWindowSeconds : ℤ)
    (hotSlots : List (Σ _ : ℤ, SlotData)) : Program Act Unit := do
  forEach hotSlots (se.evictSlot hotThreshold)
  let coldKeys ← perform .getColdSlotKeys
  forEach coldKeys (se.promoteSlot hotThreshold hotWindowSeconds)

/-- `now - hotWindowSeconds` -/
def hotThreshold (se : SlotEvictor) (now : ℤ) : ℤ := wrap64 (now - seconds se.hotWindow)

lemma run_evict (env : ℕ → Env) (hleader : (env 0).leader = true) :
    run (handle thread) se.evict env n
      = run (handle thread) (se.sweep (se.hotThreshold (env 1).now) (seconds se.hotWindow)
          ((env 2).order _ n.fsm.slots.sortedEntries)) (fun i => env (i + 3)) n := by
  rw [evict, perform_bind, run_step]
  simp only [handle, hleader, if_true]
  rfl

lemma wp_sweep {J : Node → Prop} {hotSlots : List (Σ _ : ℤ, SlotData)}
    (hevict : wp (handle thread) Env.Stable (forEach hotSlots (se.evictSlot thr)) (fun _ => J) n)
    (hpromote : ∀ key n, J n →
      wp (handle thread) Env.Stable (se.promoteSlot thr hotWindowSeconds key) (fun _ => J) n) :
    wp (handle thread) Env.Stable (se.sweep thr hotWindowSeconds hotSlots) (fun _ => J) n := by
  refine wp_seq hevict fun _ n1 h1 => ?_
  rw [perform_bind, wp_step]
  intro e _
  exact wp_forEach _ (fun key _ n2 h2 => hpromote key n2 h2) h1

section Pass

variable {env : ℕ → Env} (henv : ∀ i, (env i).Stable) (hwf : n.queue.wheel.WellFormed)
include henv hwf

/-- A key stays in the wheel unless it is that of a slot in memory that ended before the window. -/
lemma evict_holds (hk : se.wheel = true → ∀ slot, n.fsm.slots.lookup k = some slot →
      ¬ slot.maxTime < se.hotThreshold (env 1).now) (hholds : n.queue.wheel.Holds k) :
    (run (handle thread) se.evict env n).1.queue.wheel.Holds k := by
  rw [run_evict env (henv 0).1]
  refine (wp_run (wp_sweep (J := Held k) ?_ fun key n h => held_promoteSlot h)
    fun i => henv (i + 3)).holds
  refine wp_forEach _ (fun x hx n' h => held_evictSlot (fun hse hold => ?_) h) ⟨hwf, hholds⟩
  rintro rfl
  have hmem := ((env 2).order_perm _ _).mem_iff.mp hx
  exact hk hse x.2 ((Finmap.mem_sortedEntries n.fsm.slots x.1 x.2).mp hmem) hold

/-- The key of such a slot leaves it. -/
lemma evict_holds_iff (hfiled : n.fsm.Filed) (hse : se.wheel = true)
    (hslot : n.fsm.slots.lookup k = some slot) (hbounds : slot.minTime ≤ slot.maxTime)
    (hold : slot.maxTime < se.hotThreshold (env 1).now) :
    (run (handle thread) se.evict env n).1.queue.wheel.Holds k ↔ n.queue.wheel.StrayCopy k := by
  rw [run_evict env (henv 0).1]
  refine (wp_run (wp_sweep (J := Gone n k slot) ?_ fun key n' h =>
    gone_promoteSlot (Int.lt_of_le_of_lt hbounds hold) h) fun i => henv (i + 3)).holds
  have hperm := (env 2).order_perm _ n.fsm.slots.sortedEntries
  -- the slot is the only one of its key
  have hother : ∀ x ∈ (env 2).order _ n.fsm.slots.sortedEntries, x ≠ ⟨k, slot⟩ → k ≠ x.1 := by
    rintro ⟨key, found⟩ hx hne rfl
    have hfound := (Finmap.mem_sortedEntries _ _ _).mp (hperm.mem_iff.mp hx)
    rw [hslot] at hfound
    exact hne (by rw [Option.some.inj hfound])
  exact wpWith_forEach_once (I := Waiting n k) demonic_mono
    (fun n' h => gone_evictSlot_self hse hslot hold h) _
    (hperm.nodup_iff.mpr n.fsm.slots.nodup_sortedEntries)
    (hperm.mem_iff.mpr ((Finmap.mem_sortedEntries _ _ _).mpr hslot))
    (fun x hx hne n' h => waiting_evictSlot (hother x hx hne) h)
    (fun x hx hne n' h => gone_evictSlot (hother x hx hne) h)
    ⟨hfiled, hwf, rfl, Iff.rfl⟩

end Pass

/-- A key of a slot that lists a live job stays in the wheel. -/
def SparesLive (n n' : Node) : Prop :=
  ∀ id key, (n.fsm.jobs.lookup id).isSome → n.fsm.Lists key id → n.queue.wheel.Holds key →
    n'.queue.wheel.Holds key

/-- No slot in memory that ended before the window lists a live job, if the wheel holds it, and
holds it once. -/
def NoneDue (se : SlotEvictor) (now : ℤ) (n : Node) : Prop :=
  se.wheel = true → ∀ key slot, n.fsm.slots.lookup key = some slot →
    slot.maxTime < se.hotThreshold now → ∀ id ∈ slot.jobIDs, (n.fsm.jobs.lookup id).isSome →
    n.queue.wheel.Holds key → n.queue.wheel.StrayCopy key

instance (se : SlotEvictor) (now : ℤ) (n : Node) : Decidable (se.NoneDue now n) :=
  decidable_of_iff (se.wheel = true → ∀ x ∈ n.fsm.slots.sortedEntries,
      x.2.maxTime < se.hotThreshold now → ∀ id ∈ x.2.jobIDs, (n.fsm.jobs.lookup id).isSome →
      n.queue.wheel.Holds x.1 → n.queue.wheel.StrayCopy x.1)
    (forall_congr' fun _ => n.fsm.slots.forall_mem_sortedEntries fun key slot =>
      slot.maxTime < se.hotThreshold now → ∀ id ∈ slot.jobIDs, (n.fsm.jobs.lookup id).isSome →
      n.queue.wheel.Holds key → n.queue.wheel.StrayCopy key)

/-- **When a pass of the evictor strands no job.** -/
theorem evict_spares_iff (se : SlotEvictor) (thread : ℕ) (n : Node) (hfiled : n.fsm.Filed)
    (hbounds : ∀ key slot, n.fsm.slots.lookup key = some slot → slot.minTime ≤ slot.maxTime)
    (hwf : n.queue.wheel.WellFormed) (env : ℕ → Env) (henv : ∀ i, (env i).Stable) :
    SparesLive n (run (handle thread) se.evict env n).1 ↔ se.NoneDue (env 1).now n := by
  constructor
  · intro hspares hse key slot hslot hold id hid hlive hholds
    have hlists : n.fsm.Lists key id := ⟨slot, by rw [FSM.getSlot_eq, hslot]; rfl, hid⟩
    exact (evict_holds_iff henv hwf hfiled hse hslot (hbounds key slot hslot) hold).mp
      (hspares id key hlive hlists hholds)
  · intro hnone id key hlive hlists hholds
    by_cases hdue : ∃ slot, se.wheel = true ∧ n.fsm.slots.lookup key = some slot ∧
        slot.maxTime < se.hotThreshold (env 1).now
    · obtain ⟨slot, hse, hslot, hold⟩ := hdue
      obtain ⟨found, hfound, hid⟩ := hlists
      rw [FSM.getSlot_eq, hslot] at hfound
      obtain rfl : slot = found := Option.some.inj hfound
      rw [evict_holds_iff henv hwf hfiled hse hslot (hbounds key slot hslot) hold]
      exact hnone hse key slot hslot hold id hid hlive hholds
    · exact evict_holds henv hwf (fun hse slot hslot hold => hdue ⟨slot, hse, hslot, hold⟩) hholds

/-- A leader with a cold store that has accepted a job for second 5. -/
def waitingJob : Node :=
  (run (handle 0) (Store.createJob PersistentSlotQueue.jobEventHandler
      { id := "a", type := .unico, timestamp := some 5, createdAt := 0 }) (fun _ => Env.calm 0)
    { freshNode with fsm := newFSMWithColdStore ∅ }).1

/-- A hot window of 20 seconds. -/
def shortWindow : SlotEvictor := newSlotEvictorWithWheel 20000000000 true

/-- Within the window the key stays. -/
theorem evict_spares_within_window :
    SparesLive waitingJob (run (handle 1) shortWindow.evict (fun _ => Env.calm 29) waitingJob).1 :=
  (evict_spares_iff shortWindow 1 waitingJob
    (Store.run_invariant (fun _ faults cmd h => h.apply faults cmd) _ _ _
      FSM.filed_newFSMWithColdStore)
    ((waitingJob.fsm.slots.forall_mem_sortedEntries fun _ slot => slot.minTime ≤ slot.maxTime).mp
      (by decide +kernel))
    ⟨by decide +kernel, by decide +kernel, by decide +kernel⟩ _ fun _ => by decide).mpr
      (by decide +kernel)

/-- **A live job is stranded**: after the pass at second 100 the job is still there and its slot
lists it, but the wheel has lost the key. -/
theorem evict_strands :
    let n := (run (handle 1) shortWindow.evict (fun _ => Env.calm 100) waitingJob).1
    waitingJob.queue.wheel.Holds 0 ∧ (n.fsm.jobs.lookup "a").isSome ∧ n.fsm.Lists 0 "a" ∧
      ¬ n.queue.wheel.Holds 0 := by
  decide +kernel

end SlotEvictor

end ScheduledDb
