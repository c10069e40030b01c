import ScheduledDb.Slots.TimingWheel.Punctual

/-!
# Never early, whatever the base

`never_early_never_lost` is about keys and times from zero on.  But a wheel may be started before the
epoch, and hold slots from before it.  The distance of a key to the base can then leave the 64-bit
range: a key far ahead looks like one of the past, and is handed out at once.

Here the calls of a run are asked for no more than that this does not happen: a key that is added
begins at a 64-bit time, less than `2 ^ 63` seconds after the base.  Times may be negative, and the
wheel may be reset.  `Patient.advance` says that no key is handed out before its slot is over.
-/

namespace ScheduledDb

open Machine

namespace HierarchicalTimingWheel

variable {w : HierarchicalTimingWheel} {gap b k : ℤ}

lemma totalCoverage_reset (w : HierarchicalTimingWheel) :
    w.reset.totalCoverage = w.totalCoverage := by
  simp [totalCoverage, HierarchicalTimingWheel.reset, List.foldl_map]

/-- Without keys the bottom level is on time at any base. -/
lemma OnTime.reset (h : (w.startAt (b * gap)).OnTime gap b) (b' : ℤ) :
    (w.reset.startAt (b' * gap)).OnTime gap b' where
  running := rfl
  gap_eq := h.gap_eq
  base_eq := rfl
  deep := by
    change 2 ≤ (w.levels.map _).length
    rw [List.length_map]
    exact h.deep
  coverage := by
    change 0 < w.reset.totalCoverage
    rw [totalCoverage_reset]
    exact h.coverage
  bottom := by
    intro l' hl'
    change (w.levels.map _)[0]? = some l' at hl'
    rw [List.getElem?_map, Option.map_eq_some_iff] at hl'
    obtain ⟨l, hl, rfl⟩ := hl'
    have hon := h.bottom l hl
    refine ⟨hon.granularity, Nat.zero_lt_of_lt hon.current_lt, ?_, hon.count_lt, fun j k hk => ?_⟩
    · exact (List.length_map _).trans hon.length
    · have hheld : w.reset.Holds k := Or.inl ⟨0, j, _, by
        change (w.levels.map _)[0]? = _
        rw [List.getElem?_map]
        exact congrArg _ hl, hk⟩
      exact absurd hheld (not_holds_reset w k)

lemma Patient.reset (h : w.Patient gap) : w.reset.Patient gap where
  wellFormed := h.wellFormed.reset
  gap_eq := h.gap_eq
  started := nofun
  waiting := by
    intro _
    refine ⟨not_holds_reset w, ?_⟩
    cases hrun : w.initialized with
    | false => exact ((h.waiting hrun).2 0).reset
    | true =>
      obtain ⟨b, _, _, hon⟩ := h.started hrun
      exact OnTime.reset ⟨rfl, hon.gap_eq, rfl, hon.deep, hon.coverage, hon.bottom⟩

end HierarchicalTimingWheel

namespace WheelCall

variable {w : HierarchicalTimingWheel} {gap : ℤ}

/-- A call with 64-bit times.  A key that is added begins at such a time, less than `2 ^ 63` seconds
after the base. -/
def Timed (gap : ℤ) (w : HierarchicalTimingWheel) : WheelCall → Prop
  | init now => InRange now
  | add slotKey => InRange (slotKey * gap) ∧
      (w.initialized = true → slotKey * gap - w.currentBase < 9223372036854775808)
  | remove _ => True
  | advance now => InRange now
  | reset => True

instance (gap : ℤ) (w : HierarchicalTimingWheel) : ∀ call : WheelCall, Decidable (call.Timed gap w)
  | init now => inferInstanceAs (Decidable (InRange now))
  | add slotKey => inferInstanceAs (Decidable (InRange (slotKey * gap) ∧
      (w.initialized = true → slotKey * gap - w.currentBase < 9223372036854775808)))
  | remove _ => isTrue trivial
  | advance now => inferInstanceAs (Decidable (InRange now))
  | reset => isTrue trivial

/-- One call. -/
lemma patient_act (h : w.Patient gap) (hgap : 0 < gap) {call : WheelCall}
    (hcall : call.Timed gap w) :
    (call.act w).Patient gap := by
  cases call with
  | init now => exact h.init hgap hcall
  | add slotKey => exact h.add hgap hcall.1 hcall.2
  | remove slotKey => exact h.remove slotKey
  | advance now => exact (h.advance hgap hcall).1
  | reset => exact h.reset

lemma patient_run (hgap : 0 < gap) {calls : List WheelCall}
    (hcalls : Run.Along act (fun w call => call.Timed gap w) w calls) (h : w.Patient gap) :
    (calls.foldl act w).Patient gap :=
  hcalls.invariant (fun _ _ hw hcall => patient_act hw hgap hcall) h

end WheelCall

end ScheduledDb
