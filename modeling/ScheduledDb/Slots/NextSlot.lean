import Mathlib.Data.Int.LeastGreatest
import ScheduledDb.Slots.DueSlots
import ScheduledDb.Slots.TimingWheel.Minimum
import ScheduledDb.Slots.Worker

/-!
# Which slot `GetNextSlot` returns

`GetNextSlot` has the wheel name one key, that of `PeekMin`, and returns the slot of that key with
those of its jobs that still exist.  If the slot is missing, or has no such jobs, it returns `nil`,
whatever other slots the wheel holds; and `PeekMin` need not name the smallest key.

`earliestSlot_iff` says when the earliest slot with jobs is returned: when its key is in sight of
`PeekMin`, with no smaller one.  Slot times may be negative; `PeekMin` then takes the slot time `-1`
for "none yet" and forgets what it has seen (`compared`).
-/

namespace ScheduledDb

open Machine Program HierarchicalTimingWheel

/-! ## Slots with jobs that exist -/

namespace FSM

variable {f f' : FSM} {key : ℤ}

/-- The slot lists a job that is in the store. -/
def Serves (f : FSM) (key : ℤ) : Prop :=
  ∃ slot, f.getSlot key false = some slot ∧ ∃ id ∈ slot.jobIDs, ∃ job, f.jobs.lookup id = some job

/-- The slot with those of its jobs that are in the store, if there are any. -/
def slotOf (f : FSM) (key : ℤ) : Option Slot :=
  (f.getSlot key false).bind fun slot =>
    if slot.jobIDs.filterMap f.jobs.lookup = [] then none
    else some ⟨key, slot.minTime, slot.maxTime, slot.jobIDs.filterMap f.jobs.lookup⟩

lemma Serves.live (h : f.Serves key) : f.Live key := by
  obtain ⟨slot, hslot, id, hid, -⟩ := h
  exact ⟨slot, hslot, List.ne_nil_of_mem hid⟩

lemma slotOf_eq_none_iff : f.slotOf key = none ↔ ¬ f.Serves key := by
  rw [slotOf, Serves]
  cases f.getSlot key false with
  | none => simp
  | some slot =>
    simp only [Option.bind_some, ite_eq_left_iff, reduceCtorEq, imp_false, not_not,
      List.filterMap_eq_nil_iff, Option.some.injEq, exists_eq_left', not_exists, not_and]
    refine forall_congr' fun id => forall_congr' fun _ => ?_
    exact Option.eq_none_iff_forall_ne_some

lemma key_of_slotOf {slot : Slot} (h : f.slotOf key = some slot) : slot.key = key := by
  rw [slotOf] at h
  obtain ⟨data, -, h⟩ := Option.bind_eq_some_iff.mp h
  split_ifs at h
  rw [← Option.some.inj h]

/-- A slot with jobs has its own key. -/
lemma eq_of_slotOf {key' : ℤ} (h : f.Serves key) (heq : f.slotOf key' = f.slotOf key) :
    key' = key := by
  cases hslot : f.slotOf key with
  | none => exact absurd h (slotOf_eq_none_iff.mp hslot)
  | some slot => exact (key_of_slotOf (heq.trans hslot)).symm.trans (key_of_slotOf hslot)

end FSM

namespace PersistentSlotQueue

variable {thread : ℕ} {n n' : Node}

lemma Tidied.slotOf {dead : List ℤ} (h : Tidied n dead n') (k : ℤ) :
    n'.fsm.slotOf k = n.fsm.slotOf k := by
  rcases h.slots k with hsame | ⟨hnone, hdead⟩
  · rw [FSM.slotOf, FSM.slotOf, h.jobs, hsame]
  · rw [FSM.slotOf_eq_none_iff.mpr fun hserves => hdead hserves.live, FSM.slotOf, hnone]
    rfl

/-! ## What the call returns -/

/-- The slot that is returned once the wheel has been brought up to date. -/
def peeked (n : Node) : Option Slot :=
  if n.queue.wheel.peekMin = -1 then none
  else n.fsm.slotOf (n.queue.wheel.peekMin.tdiv (seconds n.queue.slotGap))

lemma wp_peekSlot_eq {ok : Env → Prop}
    (hread : ∀ e, ok e → ∀ key, n.fsm.getSlot key e.faults.get.isSome = n.fsm.getSlot key false) :
    wp (handle thread) ok peekSlot (fun slot n' => n' = n ∧ slot = peeked n) n := by
  simp only [peekSlot, onWheel, slotGapSeconds, perform_bind, wp_step, wp_ite]
  refine fun e _ => ⟨fun hmin => ⟨rfl, ?_⟩,
    fun hmin e' _ => wp_bind.mpr (Store.wp_getSlot fun e'' he'' => ?_)⟩
  · exact (if_pos hmin).symm
  · have hpeeked : peeked n
        = n.fsm.slotOf (n.queue.wheel.peekMin.tdiv (seconds n.queue.slotGap)) := if_neg hmin
    rw [hpeeked, FSM.slotOf]
    simp only [handle, hread e'' he'']
    cases n.fsm.getSlot (n.queue.wheel.peekMin.tdiv (seconds n.queue.slotGap)) false with
    | none => exact ⟨rfl, rfl⟩
    | some slotData =>
      simp only [wp_bind, wp_ite]
      refine wp_mono (wpWith_collectJobs n slotData.jobIDs) fun jobs n' hn' => ?_
      obtain ⟨hn', rfl⟩ := hn'
      exact ⟨fun hnil => ⟨hn', (if_pos hnil).symm⟩, fun hne => ⟨hn', (if_neg hne).symm⟩⟩

/-- The node when the wheel has been moved to the present. -/
def advanced (n : Node) (env : ℕ → Env) : Node :=
  { n with
    queue := { n.queue with
      wheel := ((n.queue.started env).advance (n.queue.advanceTime env)).1 } }

/-- The keys that `Advance` returns and whose slots are missing or have no jobs. -/
def deadReady (n : Node) (env : ℕ → Env) : List ℤ :=
  ((n.queue.started env).advance (n.queue.advanceTime env)).2.filter fun k => ¬ n.fsm.Live k

/-- That wheel less those keys: the wheel that `PeekMin` is asked about. -/
def tidiedWheel (n : Node) (env : ℕ → Env) : HierarchicalTimingWheel :=
  (deadReady n env).foldl HierarchicalTimingWheel.remove (advanced n env).queue.wheel

lemma run_getNextSlot_eq (hkeys : ∀ k, n.queue.wheel.Holds k → InRange k)
    (hwf : n.queue.wheel.WellFormed) (env : ℕ → Env) (hcold : ∀ i, ReadsColdStore (env i)) :
    let r := run (handle thread) getNextSlot env n
    Tidied (advanced n env) (deadReady n env) r.1 ∧ r.2.1 = peeked r.1 := by
  intro r
  obtain ⟨shift, hrun⟩ := run_getNextSlot thread n env
  have hready : ∀ k ∈ ((n.queue.started env).advance (n.queue.advanceTime env)).2, InRange k := by
    intro k hk
    refine hkeys k ((holds_init (env 1).now k).mp ?_)
    exact (holds_advance (hwf.init _) _ k).mpr (Or.inr hk)
  have hwp : wp (handle thread) ReadsColdStore
      (forEach ((n.queue.started env).advance (n.queue.advanceTime env)).2 dropIfDead
        >>= fun _ => peekSlot)
      (fun slot n' => Tidied (advanced n env) (deadReady n env) n' ∧ slot = peeked n')
      (advanced n env) := by
    refine wp_seq (dropDead_tidied hready (Tidied.refl _)) fun _ n1 h1 => ?_
    refine wp_mono (wp_peekSlot_eq fun e he key => by rw [he]; rfl) fun slot n2 h2 => ?_
    rw [h2.1]
    exact ⟨h1, h2.2⟩
  have hend := wp_run hwp fun i => hcold (i + shift)
  rw [← advanced] at hrun
  rw [← hrun] at hend
  exact hend

end PersistentSlotQueue

/-! ## What `PeekMin` compares -/

namespace HierarchicalTimingWheel

variable {w : HierarchicalTimingWheel}

/-- One more key in sight.  `PeekMin` takes the slot time `-1` for "none yet", so it starts over after
a slot that begins then, unless it has seen an earlier one. -/
def compareNext (w : HierarchicalTimingWheel) (ks : List ℤ) (k : ℤ) : List ℤ :=
  if w.computeSlotTime k = -1 ∧ ∀ k' ∈ ks, -1 ≤ w.computeSlotTime k' then [] else ks ++ [k]

/-- The keys in sight that `PeekMin` has compared since it last had none. -/
def compared (w : HierarchicalTimingWheel) : List ℤ := w.seen.foldl w.compareNext []

/-- The running minimum is that of the compared keys, and `-1` only if there are none. -/
def Scanned (w : HierarchicalTimingWheel) (ks : List ℤ) (minTime : ℤ) : Prop :=
  w.Least ks minTime ∧ (minTime = -1 → ks = [])

lemma Scanned.next {ks : List ℤ} {minTime : ℤ} (h : w.Scanned ks minTime) (k : ℤ) :
    w.Scanned (w.compareNext ks k) (w.minSlotTime minTime k) := by
  obtain ⟨⟨rfl, rfl⟩ | ⟨least, hmem, rfl, hleast⟩, hnone⟩ := h
  · simp only [compareNext, minSlotTime, true_or, if_true]
    split_ifs with hk
    · exact ⟨Or.inl ⟨rfl, hk.1⟩, fun _ => rfl⟩
    · have hne : w.computeSlotTime k ≠ -1 := fun heq => hk ⟨heq, by simp⟩
      exact ⟨Or.inr ⟨k, by simp, rfl, by simp⟩, fun heq => absurd heq hne⟩
  · have hne : w.computeSlotTime least ≠ -1 := fun heq =>
      List.ne_nil_of_mem hmem (hnone heq)
    simp only [compareNext, minSlotTime, hne, false_or]
    split_ifs with hk hlt hlt
    · exact ⟨Or.inl ⟨rfl, hk.1⟩, fun _ => rfl⟩
    · have := hk.2 least hmem
      omega
    · refine ⟨Or.inr ⟨k, by simp, rfl, fun k' hk' => ?_⟩, fun heq => absurd ⟨heq, ?_⟩ hk⟩
      · rcases List.mem_append.mp hk' with hk' | hk'
        · exact hlt.le.trans (hleast k' hk')
        · rw [List.mem_singleton.mp hk']
      · intro k' hk'
        have := hleast k' hk'
        omega
    · refine ⟨Or.inr ⟨least, List.mem_append_left _ hmem, rfl, fun k' hk' => ?_⟩,
        fun heq => absurd heq hne⟩
      rcases List.mem_append.mp hk' with hk' | hk'
      · exact hleast k' hk'
      · rw [List.mem_singleton.mp hk']
        omega

/-- **What `PeekMin` says**, also with negative slot times. -/
lemma scanned_peekMin (hrun : w.initialized = true) : w.Scanned w.compared w.peekMin := by
  have hfold : ∀ (ks ks' : List ℤ) (minTime : ℤ), w.Scanned ks' minTime →
      w.Scanned (ks.foldl w.compareNext ks') (ks.foldl w.minSlotTime minTime) := by
    intro ks
    induction ks with
    | nil => exact fun _ _ h => h
    | cons k ks ih => exact fun _ _ h => ih _ _ (h.next k)
  rw [peekMin_eq hrun, compared]
  exact hfold w.seen [] (-1) ⟨Or.inl ⟨rfl, rfl⟩, fun _ => rfl⟩

lemma holds_of_mem_compared {k : ℤ} (h : k ∈ w.compared) : w.Holds k := by
  have hfold : ∀ (ks ks' : List ℤ), k ∈ ks.foldl w.compareNext ks' → k ∈ ks' ∨ k ∈ ks := by
    intro ks
    induction ks with
    | nil => exact fun _ hk => Or.inl hk
    | cons key ks ih =>
      intro ks' hk
      rcases ih _ hk with hk | hk
      · rw [compareNext] at hk
        split_ifs at hk
        · cases hk
        · simp only [List.mem_append, List.mem_singleton] at hk
          simp only [List.mem_cons]
          tauto
      · exact Or.inr (List.mem_cons_of_mem _ hk)
  rcases hfold w.seen [] h with hk | hk
  · cases hk
  · exact (mem_seen.mp hk).holds

/-- `PeekMin` compares the key, and no smaller one. -/
def LeastInSight (w : HierarchicalTimingWheel) (m : ℤ) : Prop :=
  m ∈ w.compared ∧ ∀ k ∈ w.compared, m ≤ k

end HierarchicalTimingWheel

/-! ## The earliest slot -/

namespace PersistentSlotQueue

/-- The wheel's levels have their buckets, it has the slot gap of the queue, of a second or more, and
the slot times of its keys are 64-bit numbers, as they are if the keys come from the times of jobs.
They may be negative. -/
structure Sane (q : PersistentSlotQueue) : Prop where
  wheel : q.wheel.WellFormed
  gap_pos : 0 < seconds q.slotGap
  slotGap : q.wheel.slotGap = q.slotGap
  keys : ∀ k, q.wheel.Holds k → InRange (k * seconds q.slotGap)

/-- The earliest of the slots with jobs whose keys the wheel holds, or `nil` if there is none. -/
def EarliestSlot (f : FSM) (w : HierarchicalTimingWheel) (slot : Option Slot) : Prop :=
  (slot = none ∧ ∀ k, w.Holds k → ¬ f.Serves k) ∨
    ∃ m, w.Holds m ∧ f.Serves m ∧ (∀ k, w.Holds k → f.Serves k → m ≤ k) ∧ slot = f.slotOf m

section Earliest

variable {env : ℕ → Env} {thread : ℕ} {n : Node}

/-- A key is no further from `0` than its slot time. -/
lemma inRange_of_mul {k gap : ℤ} (hgap : 0 < gap) (h : InRange (k * gap)) : InRange k := by
  obtain ⟨hlow, hhigh⟩ := h
  rcases le_total 0 k with hk | hk
  · have hle : k ≤ k * gap := le_mul_of_one_le_right hk hgap
    exact ⟨by omega, hle.trans_lt hhigh⟩
  · have hle : k * gap ≤ k := by nlinarith
    exact ⟨hlow.trans hle, by omega⟩

lemma Sane.keys_advanced (h : n.queue.Sane) {k : ℤ} (hk : (advanced n env).queue.wheel.Holds k) :
    InRange (k * seconds n.queue.slotGap) := by
  refine h.keys k ((holds_init (env 1).now k).mp ?_)
  exact (holds_advance (h.wheel.init _) _ k).mpr (Or.inl hk)

/-- The settings of the wheel that `PeekMin` is asked about. -/
lemma Sane.settings_tidied (h : n.queue.Sane) :
    (tidiedWheel n env).settings = (n.queue.slotGap, true) := by
  have hremove : ∀ (ks : List ℤ) (w : HierarchicalTimingWheel),
      (ks.foldl remove w).settings = w.settings := by
    intro ks
    induction ks with
    | nil => exact fun _ => rfl
    | cons k ks ih =>
      intro w
      rw [List.foldl_cons, ih, settings,
        slotGap_remove, initialized_remove]
      rfl
  rw [tidiedWheel, hremove]
  refine (settings_advance (h.wheel.init _) _).trans ?_
  rw [init, ← h.slotGap]
  split_ifs with hinit
  · rw [settings, hinit]
  · rfl

lemma Sane.computeSlotTime (h : n.queue.Sane) {k : ℤ} (hk : (tidiedWheel n env).Holds k) :
    (tidiedWheel n env).computeSlotTime k = k * seconds n.queue.slotGap := by
  have hgap : (tidiedWheel n env).slotGap = n.queue.slotGap := congrArg Prod.fst h.settings_tidied
  rw [HierarchicalTimingWheel.computeSlotTime, HierarchicalTimingWheel.slotGapSeconds, hgap,
    if_neg h.gap_pos.ne']
  exact wrap64_of_mem (h.keys_advanced (HierarchicalTimingWheel.holds_of_removeAll hk))

/-- What the call returns: `nil` if nothing is compared, or else the slot of the least of the
compared keys. -/
lemma Sane.peeked (h : n.queue.Sane) (env : ℕ → Env) {n' : Node}
    (htidied : Tidied (advanced n env) (deadReady n env) n') :
    ((tidiedWheel n env).compared = [] ∧ peeked n' = none) ∨
      ∃ k, (tidiedWheel n env).LeastInSight k ∧ peeked n' = n.fsm.slotOf k := by
  have hrun : (tidiedWheel n env).initialized = true := congrArg Prod.snd h.settings_tidied
  have hwheel : n'.queue.wheel = tidiedWheel n env := htidied.wheel
  obtain ⟨⟨hnil, hmin⟩ | ⟨k, hk, hmin, hleast⟩, hnone⟩ :=
    scanned_peekMin hrun
  · left
    rw [PersistentSlotQueue.peeked, hwheel, if_pos hmin]
    exact ⟨hnil, rfl⟩
  · right
    have htime : ∀ k ∈ (tidiedWheel n env).compared,
        (tidiedWheel n env).computeSlotTime k = k * seconds n.queue.slotGap := fun k hk =>
      h.computeSlotTime (holds_of_mem_compared hk)
    rw [htime k hk] at hmin hleast
    refine ⟨k, ⟨hk, fun k' hk' => ?_⟩, ?_⟩
    · have hle := hleast k' hk'
      rw [htime k' hk'] at hle
      exact le_of_mul_le_mul_right hle h.gap_pos
    · have hsome : (tidiedWheel n env).peekMin ≠ -1 := fun hmin =>
        List.ne_nil_of_mem hk (hnone hmin)
      rw [PersistentSlotQueue.peeked, hwheel, if_neg hsome, htidied.slotOf, htidied.slotGap, hmin]
      exact congrArg _ (Int.mul_tdiv_cancel k h.gap_pos.ne')

/-- **The earliest slot with jobs.**  For every queue and store, every clock and every outcome of the
calls: of the keys that the wheel holds once it has been moved to the present, the smallest one
whose slot has a job in the store is returned, with its jobs in the store, and `nil` only if there
is no such key, exactly if in that wheel less its dead ready keys `PeekMin` compares that key and no
smaller one. -/
theorem earliestSlot_iff (thread : ℕ) (n : Node) (hqueue : n.queue.Sane) (env : ℕ → Env)
    (hcold : ∀ i, ReadsColdStore (env i)) :
    let r := run (handle thread) getNextSlot env n
    let w := (advanced n env).queue.wheel
    EarliestSlot n.fsm w r.2.1 ↔
      ∀ m, w.Holds m → n.fsm.Serves m → (∀ k, w.Holds k → n.fsm.Serves k → m ≤ k) →
        (tidiedWheel n env).LeastInSight m := by
  intro r w
  obtain ⟨htidied, hslot⟩ : Tidied (advanced n env) (deadReady n env) r.1 ∧ r.2.1 = peeked r.1 :=
    run_getNextSlot_eq (fun k hk => inRange_of_mul hqueue.gap_pos (hqueue.keys k hk)) hqueue.wheel
      env hcold
  rw [hslot]
  constructor
  · rintro (⟨-, hnone⟩ | ⟨m', hm', hserves', hleast', hslot'⟩) m hm hserves hleastm
    · exact absurd hserves (hnone m hm)
    · obtain rfl : m = m' := le_antisymm (hleastm m' hm' hserves') (hleast' m hm hserves)
      rcases hqueue.peeked env htidied with ⟨-, hnil⟩ | ⟨k, hk, hpeeked⟩
      · exact absurd hserves (FSM.slotOf_eq_none_iff.mp (hslot'.symm.trans hnil))
      · obtain rfl : k = m := FSM.eq_of_slotOf hserves (hpeeked.symm.trans hslot')
        exact hk
  · intro hshown
    by_cases hany : ∃ k, w.Holds k ∧ n.fsm.Serves k
    · obtain ⟨m, ⟨hm, hserves⟩, hleastm⟩ := Int.exists_least_of_bdd
        ⟨-2 ^ 63, fun k' hk' =>
          (inRange_of_mul hqueue.gap_pos (hqueue.keys_advanced hk'.1)).1⟩ hany
      have hleastm' : ∀ k, w.Holds k → n.fsm.Serves k → m ≤ k := fun k hk hs => hleastm k ⟨hk, hs⟩
      have hm' := hshown m hm hserves hleastm'
      rcases hqueue.peeked env htidied with ⟨hnil, -⟩ | ⟨k, hk, hpeeked⟩
      · exact absurd hnil (List.ne_nil_of_mem hm'.1)
      · obtain rfl : k = m := le_antisymm (hk.2 m hm'.1) (hm'.2 k hk.1)
        exact Or.inr ⟨k, hm, hserves, hleastm', hpeeked⟩
    · have hnone : ∀ k, w.Holds k → ¬ n.fsm.Serves k := fun k hk hs => hany ⟨k, hk, hs⟩
      refine Or.inl ⟨?_, hnone⟩
      rcases hqueue.peeked env htidied with ⟨-, hnil⟩ | ⟨k, hk, hpeeked⟩
      · exact hnil
      · refine hpeeked.trans (FSM.slotOf_eq_none_iff.mpr (hnone k ?_))
        exact holds_of_removeAll
          (holds_of_mem_compared hk.1)

end Earliest

/-! ## A key without a slot -/

/-- A leader with slots of ten seconds that has accepted, at second 0, a job due at second 65. -/
def jobInSlotSix : Node := acceptedJob { id := "a", type := .unico, timestamp := some 65 }

/-- At second 10 another job for that slot is accepted, both are deleted, and a job due at second 75
is accepted.  The wheel holds slot 6 in two buckets by then, and `Remove` leaves one of them. -/
def ghostOfSlotSix : Node :=
  (run (handle workerThread)
    (do
      let _ ← getNextSlot
      let _ ← Store.createJob jobEventHandler { id := "b", type := .unico, timestamp := some 66 }
      let _ ← Store.deleteJob jobEventHandler "a"
      let _ ← Store.deleteJob jobEventHandler "b"
      Store.createJob jobEventHandler { id := "c", type := .unico, timestamp := some 75 })
    (fun _ => Env.calm 10) jobInSlotSix).1

lemma sane_of_keys {q : PersistentSlotQueue} (hwheel : q.wheel.WellFormed)
    (hgap : 0 < seconds q.slotGap) (hslotGap : q.wheel.slotGap = q.slotGap)
    (hkeys : ∀ k ∈ q.wheel.keys, InRange (k * seconds q.slotGap)) : q.Sane :=
  ⟨hwheel, hgap, hslotGap, fun k hk => hkeys k ((q.wheel.holds_iff_mem_keys k).mp hk)⟩

/-- As long as there is one copy of the key, the slot is found. -/
theorem earliestSlot_six :
    EarliestSlot jobInSlotSix.fsm (advanced jobInSlotSix fun _ => Env.calm 5).queue.wheel
      (run (handle 0) getNextSlot (fun _ => Env.calm 5) jobInSlotSix).2.1 := by
  have hkeys : (advanced jobInSlotSix fun _ => Env.calm 5).queue.wheel.keys = [6] := by
    decide +kernel
  have hcompared : (tidiedWheel jobInSlotSix fun _ => Env.calm 5).compared = [6] := by
    decide +kernel
  refine (earliestSlot_iff 0 jobInSlotSix (sane_of_keys ⟨by decide +kernel, by decide +kernel,
    by decide +kernel⟩ (by decide) (by decide +kernel) (by decide +kernel)) (fun _ => Env.calm 5)
    fun _ => rfl).mpr fun m hm _ _ => ?_
  rw [holds_iff_mem_keys, hkeys, List.mem_singleton] at hm
  rw [hm, LeastInSight, hcompared]
  simp

/-- **A key without a slot hides the slots after it**: slot 7 has a job, and `GetNextSlot` returns
`nil` because of slot 6. -/
theorem ghost_hides_slot :
    let env : ℕ → Env := fun _ => Env.calm 20
    ghostOfSlotSix.queue.Sane ∧ (∀ i, ReadsColdStore (env i)) ∧
      (advanced ghostOfSlotSix env).queue.wheel.Holds 7 ∧ ghostOfSlotSix.fsm.Serves 7 ∧
      (run (handle 0) getNextSlot env ghostOfSlotSix).2.1 = none := by
  intro env
  refine ⟨sane_of_keys ⟨by decide +kernel, by decide +kernel, by decide +kernel⟩ (by decide +kernel)
    (by decide +kernel) (by decide +kernel), fun _ => rfl, by decide +kernel, ?_, by decide +kernel⟩
  exact ⟨⟨7, 70, 79, ["c"]⟩, by decide +kernel, "c", by decide,
    { id := "c", type := .unico, timestamp := some 75 }, by decide +kernel⟩

end PersistentSlotQueue

end ScheduledDb
