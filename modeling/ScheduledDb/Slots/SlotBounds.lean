import ScheduledDb.Simulator
import ScheduledDb.Slots.Scheduling

/-!
# The bounds of a slot

A job goes into the slot with key `t / g`, where `t` is its time and `g` the slot gap in seconds, and
the first job of a slot sets its bounds: `key * g` and `(key + 1) * g - 1`.  The division truncates,
and both products are computed in 64 bits.  So the slot covers `t` for the times from zero on whose
slot ends within the range, but below zero only for the multiples of `g`, as `slot_covers_iff` says
of `AddJob` and of the simulator.
-/

namespace ScheduledDb

open Machine Program PersistentSlotQueue

namespace SlotData

/-- The key and the bounds are those that a slot is built with. -/
def BuiltFor (slot : SlotData) (key gap : ℤ) : Prop :=
  slot.key = key ∧ slot.minTime = wrap64 (key * gap) ∧
    slot.maxTime = wrap64 (wrap64 (wrap64 (key + 1) * gap) - 1)

/-- The slot is `gap` seconds wide, and `t` lies in it. -/
def Covers (slot : SlotData) (t gap : ℤ) : Prop :=
  slot.minTime ≤ t ∧ t ≤ slot.maxTime ∧ slot.maxTime - slot.minTime + 1 = gap

instance (slot : SlotData) (t gap : ℤ) : Decidable (slot.Covers t gap) :=
  inferInstanceAs (Decidable (_ ∧ _))

end SlotData

/-- The bounds of the slot with this key are computed without wrap-around. -/
def Unwrapped (key gap : ℤ) : Prop :=
  InRange (key * gap) ∧ InRange (key + 1) ∧ InRange ((key + 1) * gap) ∧
    InRange ((key + 1) * gap - 1)

instance (key gap : ℤ) : Decidable (Unwrapped key gap) := inferInstanceAs (Decidable (_ ∧ _))

/-! ## Arithmetic -/

section Arithmetic

variable {slot : SlotData} {t gap : ℤ}

/-- **When a slot covers the time it is built for.**  If the end of the slot is the end of the range,
the last bound is right although it is computed by wrapping around twice. -/
lemma covers_iff (hslot : slot.BuiltFor (t.tdiv gap) gap) (ht : InRange t) (hgap : 0 < gap)
    (hrange : InRange gap) :
    slot.Covers t gap ↔ (0 ≤ t ∨ gap ∣ t) ∧ (t.tdiv gap + 1) * gap ≤ 9223372036854775808 := by
  obtain ⟨-, hmin, hmax⟩ := hslot
  have hlow := ht.tdiv_mul hgap
  rw [wrap64_of_mem hlow] at hmin
  rw [wrap64_wrap64_mul, wrap64_wrap64_sub] at hmax
  have hsum := Int.tdiv_mul_add_tmod t gap
  have hnext : (t.tdiv gap + 1) * gap = t.tdiv gap * gap + gap := by ring
  rw [hnext] at hmax ⊢
  unfold SlotData.Covers
  unfold InRange at ht hlow hrange
  obtain hpos | hneg : 0 ≤ t ∨ t < 0 := by omega
  · have hrest := Int.tmod_nonneg gap hpos
    have hless := Int.tmod_lt_of_pos t hgap
    by_cases hend : t.tdiv gap * gap + gap ≤ 9223372036854775808
    · rw [wrap64_of_mem ⟨by omega, by omega⟩] at hmax
      exact ⟨fun _ => ⟨Or.inl hpos, hend⟩, fun _ => ⟨by omega, by omega, by omega⟩⟩
    · rw [wrap64_of_overflow (by omega) (by omega)] at hmax
      exact ⟨fun hcovers => by omega, fun hcovers => absurd hcovers.2 hend⟩
  · have hrest := Int.lt_tmod_of_pos t hgap
    have hquot : t.tdiv gap * gap ≤ 0 := by
      have hneg' : 0 ≤ (-t).tdiv gap * gap :=
        Int.mul_nonneg (Int.tdiv_nonneg (by omega) hgap.le) hgap.le
      rw [Int.neg_tdiv, Int.neg_mul] at hneg'
      omega
    have htrunc : t.tmod gap ≤ 0 := by
      have hneg' := Int.tmod_nonneg gap (a := -t) (by omega)
      rw [Int.neg_tmod] at hneg'
      omega
    rw [wrap64_of_mem ⟨by omega, by omega⟩] at hmax
    constructor
    · intro hcovers
      have hzero : t.tmod gap = 0 := by omega
      exact ⟨Or.inr (Int.dvd_of_tmod_eq_zero hzero), by omega⟩
    · rintro ⟨hnonneg | hdvd, _⟩
      · omega
      · have hzero := Int.tmod_eq_zero_of_dvd hdvd
        exact ⟨by omega, by omega, by omega⟩

/-- Nothing wraps around unless the slot reaches the end of the range. -/
lemma unwrapped_iff (ht : InRange t) (hgap : 0 < gap) :
    Unwrapped (t.tdiv gap) gap ↔ (t.tdiv gap + 1) * gap < 9223372036854775808 := by
  have hlow := ht.tdiv_mul hgap
  have hkey := ht.tdiv hgap
  have hnext : (t.tdiv gap + 1) * gap = t.tdiv gap * gap + gap := by ring
  constructor
  · rintro ⟨-, -, hend, -⟩
    exact hend.2
  · intro hend
    have hsucc : t.tdiv gap + 1 < 9223372036854775808 := by
      by_contra hlarge
      have : t.tdiv gap + 1 ≤ (t.tdiv gap + 1) * gap := le_mul_of_one_le_right (by omega) hgap
      omega
    unfold InRange at hlow hkey
    exact ⟨hlow, ⟨by omega, hsucc⟩, ⟨by omega, hend⟩, by omega, by omega⟩

lemma builtFor_extendSlot {found : Option SlotData} {key : ℤ}
    (hfound : ∀ slot, found = some slot → slot.BuiltFor key gap) (jobID : String) :
    (extendSlot found key gap jobID).BuiltFor key gap := by
  cases found with
  | none => exact ⟨rfl, rfl, rfl⟩
  | some slot => exact hfound slot rfl

/-- The slot of a job after it was written: the job is in it, and it covers the job's time, computed
without wrap-around, on a certain condition. -/
def FSM.CoversIf (f : FSM) (jobID : String) (t gap : ℤ) (condition : Prop) : Prop :=
  ∃ slot, f.slots.lookup (t.tdiv gap) = some slot ∧ jobID ∈ slot.jobIDs ∧
    (slot.Covers t gap ∧ Unwrapped (t.tdiv gap) gap ↔ condition)

/-- The slot as it is written with one more job. -/
lemma coversIf_createSlot {f : FSM} {found : Option SlotData} (jobID : String)
    (hfound : ∀ slot, found = some slot → slot.BuiltFor (t.tdiv gap) gap) (ht : InRange t)
    (hgap : 0 < gap) (hrange : InRange gap) (faults : ColdFaults) :
    (f.apply faults { type := .createSlot
                      slot := some (extendSlot found (t.tdiv gap) gap jobID) }).1.CoversIf jobID t
      gap ((0 ≤ t ∨ gap ∣ t) ∧ (t.tdiv gap + 1) * gap < 9223372036854775808) := by
  have hbuilt := builtFor_extendSlot hfound jobID
  refine ⟨_, ?_, mem_extendSlot found (t.tdiv gap) gap jobID, ?_⟩
  · rw [FSM.effect_createSlot]
    simp only [Effect.act]
    rw [hbuilt.1, Finmap.lookup_insert]
  · rw [covers_iff hbuilt ht hgap hrange, unwrapped_iff ht hgap]
    constructor
    · rintro ⟨⟨hside, _⟩, hend⟩
      exact ⟨hside, hend⟩
    · rintro ⟨hside, hend⟩
      exact ⟨⟨hside, hend.le⟩, hend⟩

end Arithmetic

/-! ## The two places where slots are built -/

/-- **A slot covers the times of its jobs** from zero on, and those multiples of the slot gap below
zero, as far as it ends within the range of times; and no others.  The slot may have been there
before, if it was built in the same way. -/
theorem slot_covers_iff (g : ℤ) (hg : 1 ≤ g) (hrange : InRange (g * 1000000000)) (job : Job) (t : ℤ)
    (ht : InRange t) (hdue : job.dueTime = some t) :
    let covered : Prop := (0 ≤ t ∨ g ∣ t) ∧ (t.tdiv g + 1) * g < 9223372036854775808
    (∀ (n : Node) (env : ℕ → Env), (∀ i, (env i).Stable) → n.queue.slotGap = g * 1000000000 →
      (∀ readFails slot, n.fsm.getSlot (t.tdiv g) readFails = some slot →
        slot.BuiltFor (t.tdiv g) g) →
      (run (handle 0) (addJob job) env n).1.fsm.CoversIf job.id t g covered) ∧
    (∀ w : SimulatedWorker, w.slotGap = g * 1000000000 →
      (∀ slot, w.fsm.getSlot (t.tdiv g) false = some slot → slot.BuiltFor (t.tdiv g) g) →
      ((w.addToWheel job).updateSlotInFSM job).fsm.CoversIf job.id t g covered) := by
  intro covered
  have hrange' : InRange g := by
    unfold InRange at hrange ⊢
    omega
  refine ⟨fun n env hstable hgap hfound => ?_, fun w hgap hfound => ?_⟩
  · have hseconds : seconds n.queue.slotGap = g := by rw [hgap, seconds_mul]
    refine wp_run (Q := fun _ n' => n'.fsm.CoversIf job.id t g covered)
      (wp_addJob_write hdue hseconds fun n' readFails faults cmd hcmd hfsm _ _ => ?_) hstable
    rw [hfsm, hcmd]
    exact coversIf_createSlot job.id (hfound readFails) ht hg hrange' faults
  · have hseconds : w.slotGapSec = g := by
      rw [SimulatedWorker.slotGapSec, hgap, seconds_mul, if_neg (by omega)]
    have hfsm : ((w.addToWheel job).updateSlotInFSM job).fsm
        = (w.fsm.apply {} { type := .createSlot
                            slot := some (extendSlot (w.fsm.getSlot (t.tdiv g) false) (t.tdiv g) g
                              job.id) }).1 := by
      rw [← hseconds]
      simp only [SimulatedWorker.addToWheel, SimulatedWorker.updateSlotInFSM, hdue]
      rfl
    rw [hfsm]
    exact coversIf_createSlot job.id hfound ht hg hrange' {}

/-- Ten-second slots, and a job at second 25. -/
theorem slot_covers_second_25 :
    let job : Job := { id := "a", type := .unico, timestamp := some 25 }
    let n : Node := { fsm := newFSM, queue := newPersistentSlotQueue 10000000000 }
    (run (handle 0) (addJob job) (fun _ => .calm 20) n).1.fsm.CoversIf "a" 25 10
      ((0 ≤ (25 : ℤ) ∨ (10 : ℤ) ∣ 25) ∧ ((25 : ℤ).tdiv 10 + 1) * 10 < 9223372036854775808) ∧
    (run (handle 0) (addJob job) (fun _ => .calm 20) n).1.fsm.slots.lookup 2
      = some { key := 2, minTime := 20, maxTime := 29, jobIDs := ["a"] } := by
  intro job n
  have hnone : ∀ readFails slot, n.fsm.getSlot ((25 : ℤ).tdiv 10) readFails = some slot →
      slot.BuiltFor ((25 : ℤ).tdiv 10) 10 := by
    intro readFails slot hslot
    simp [n, newFSM, FSM.getSlot_eq] at hslot
  have hcovers := (slot_covers_iff 10 (by decide) (by decide) job 25 (by decide) rfl).1 n
    (fun _ => .calm 20) (fun _ => ⟨rfl, rfl⟩) rfl hnone
  exact ⟨hcovers, by decide +kernel⟩

/-- **Two accepted jobs and slots that do not cover their times**: of a recurring job that is due
five seconds before the epoch, and of a job at the end of time. -/
theorem slot_misses_its_job :
    let p : Parsers := { parseTime := fun _ _ => none, parseCron := fun _ => none }
    let early : CreateJobRequest :=
      { id := "a", type := .recurrente, timestamp := "-5", cronExpr := "0 0 * * *" }
    let late : CreateJobRequest :=
      { id := "b", type := .unico, timestamp := "9223372036854775807" }
    let accepted (r : CreateJobRequest) (job : Job) : Prop :=
      r.build p r.id 0 = .ok job ∧ (run (handle 0) (job.validate p) (fun _ => .calm 0)
        { fsm := newFSM, queue := newPersistentSlotQueue 10000000000 }).2.1 = none
    let slotOf (job : Job) (key : ℤ) : Option SlotData :=
      (run (handle 0) (addJob job) (fun _ => .calm 0)
        { fsm := newFSM, queue := newPersistentSlotQueue 10000000000 }).1.fsm.slots.lookup key
    (∃ job slot, accepted early job ∧ job.dueTime = some (-5) ∧ slotOf job 0 = some slot ∧
      slot.minTime = 0 ∧ slot.maxTime = 9 ∧ ¬ slot.Covers (-5) 10) ∧
    (∃ job slot, accepted late job ∧ job.dueTime = some 9223372036854775807 ∧
      slotOf job 922337203685477580 = some slot ∧ slot.minTime = 9223372036854775800 ∧
      slot.maxTime = -9223372036854775807 ∧ ¬ slot.Covers 9223372036854775807 10) := by
  intro p early late accepted slotOf
  refine ⟨⟨{ id := "a", type := .recurrente, cronExpr := "0 0 * * *", createdAt := -5 },
      newSlotData 0 10 "a", ?_⟩,
    ⟨{ id := "b", type := .unico, timestamp := some 9223372036854775807 },
      newSlotData 922337203685477580 10 "b", ?_⟩⟩
  · exact ⟨⟨by decide +kernel, by decide +kernel⟩, rfl, by decide +kernel, by decide⟩
  · exact ⟨⟨by decide +kernel, by decide +kernel⟩, rfl, by decide +kernel, by decide⟩

end ScheduledDb
