import Mathlib.Data.List.Induction
import Mathlib.Data.Set.Insert
import Mathlib.Order.Lattice
import Mathlib.Tactic.Lemma

/-!
# The ideal timer

What a timer is for, without buckets.  Keys are numbers of slots; the clock stands at slot `base`.
A key may be added at any time.  When the clock reaches slot `b`, every pending key of a slot
before `b` is due, once, and is then forgotten.

`mem_pending_run` says what is pending after any history: the keys added in time whose slot the
clock has not passed, and the keys added too late since which the clock has not moved.
-/

namespace IdealTimer

/-- The slot that the clock has reached, and the keys that wait. -/
structure Timer where
  base : ℤ
  pending : Set ℤ

inductive Event where
  | add (k : ℤ)
  | reach (b : ℤ)

namespace Timer

/-- The keys due when the clock reaches `b`. -/
def due (s : Timer) (b : ℤ) : Set ℤ := {k | s.base < b ∧ k ∈ s.pending ∧ k < b}

/-- A key is added to those that wait; a clock that moves on takes the due ones out. -/
def step (s : Timer) : Event → Timer
  | .add k => { s with pending := insert k s.pending }
  | .reach b => ⟨max s.base b, {k | k ∈ s.pending ∧ (s.base < b → b ≤ k)}⟩

def run (s : Timer) (evs : List Event) : Timer := evs.foldl step s

@[simp] lemma run_nil (s : Timer) : s.run [] = s := rfl

@[simp] lemma run_snoc (s : Timer) (evs : List Event) (e : Event) :
    s.run (evs ++ [e]) = (s.run evs).step e := by
  simp [run]

lemma base_le_step (s : Timer) (e : Event) : s.base ≤ (s.step e).base := by
  cases e with
  | add k => exact le_rfl
  | reach b => exact le_max_left _ _

/-- The clock never goes back. -/
lemma base_le_run (s : Timer) (evs : List Event) : s.base ≤ (s.run evs).base := by
  induction evs using List.reverseRecOn with
  | nil => exact le_rfl
  | append_singleton evs e ih =>
    rw [run_snoc]
    exact ih.trans (base_le_step _ e)

lemma base_run_append (s : Timer) (pre suf : List Event) :
    (s.run pre).base ≤ (s.run (pre ++ suf)).base := by
  have h : s.run (pre ++ suf) = (s.run pre).run suf := List.foldl_append
  rw [h]
  exact base_le_run _ suf

end Timer

/-- Where an event can stand in a history that ends in `e`. -/
lemma snoc_eq_append_cons {α : Type*} {xs pre suf : List α} {e x : α} :
    xs ++ [e] = pre ++ x :: suf
      ↔ (suf = [] ∧ pre = xs ∧ x = e) ∨ ∃ suf', suf = suf' ++ [e] ∧ xs = pre ++ x :: suf' := by
  constructor
  · intro h
    rcases List.eq_nil_or_concat suf with rfl | ⟨suf', y, rfl⟩
    · obtain ⟨h1, h2⟩ := List.append_inj' h rfl
      exact Or.inl ⟨rfl, h1.symm, (List.cons.inj h2).1.symm⟩
    · have h' : xs ++ [e] = (pre ++ x :: suf') ++ [y] := by simpa using h
      obtain ⟨h1, h2⟩ := List.append_inj' h' rfl
      obtain rfl : e = y := (List.cons.inj h2).1
      exact Or.inr ⟨suf', List.concat_eq_append, h1⟩
  · rintro (⟨rfl, rfl, rfl⟩ | ⟨suf', rfl, rfl⟩)
    · rfl
    · simp

/-- **What is pending.**  `max k base` is the slot an addition waits for: the key's own, or, when
that is over, the one the clock stands at. -/
theorem mem_pending_run (b : ℤ) (evs : List Event) (k : ℤ) :
    k ∈ ((⟨b, ∅⟩ : Timer).run evs).pending ↔
      ∃ pre suf, evs = pre ++ Event.add k :: suf ∧
        ((⟨b, ∅⟩ : Timer).run evs).base ≤ max k ((⟨b, ∅⟩ : Timer).run pre).base := by
  induction evs using List.reverseRecOn with
  | nil => simp
  | append_singleton evs e ih =>
    simp only [Timer.run_snoc, snoc_eq_append_cons]
    cases e with
    | add k' =>
      simp only [Timer.step, Set.mem_insert_iff, ih, Event.add.injEq]
      constructor
      · rintro (rfl | ⟨pre, suf, rfl, hle⟩)
        · exact ⟨evs, [], Or.inl ⟨rfl, rfl, rfl⟩, le_max_right _ _⟩
        · exact ⟨pre, suf ++ [.add k'], Or.inr ⟨suf, rfl, rfl⟩, hle⟩
      · rintro ⟨pre, suf, ⟨_, _, rfl⟩ | ⟨suf', _, rfl⟩, hle⟩
        · exact Or.inl rfl
        · exact Or.inr ⟨pre, suf', rfl, hle⟩
    | reach b' =>
      simp only [Timer.step, Set.mem_ofPred_eq, ih]
      constructor
      · rintro ⟨⟨pre, suf, rfl, hle⟩, hkeep⟩
        refine ⟨pre, suf ++ [.reach b'], Or.inr ⟨suf, rfl, rfl⟩, ?_⟩
        omega
      · rintro ⟨pre, suf, ⟨_, _, h⟩ | ⟨suf', _, rfl⟩, hle⟩
        · cases h
        · -- the clock at the addition is not past the clock before this event
          have hmono := Timer.base_run_append ⟨b, ∅⟩ pre (Event.add k :: suf')
          exact ⟨⟨pre, suf', rfl, by omega⟩, fun hlt => by omega⟩

/-- **What is due**: on the one hand the keys added in time whose slot the clock now leaves, on the
other the keys added too late since the clock last moved. -/
theorem mem_due_run (b : ℤ) (evs : List Event) (k : ℤ) :
    k ∈ ((⟨b, ∅⟩ : Timer).run evs).due (((⟨b, ∅⟩ : Timer).run evs).base + 1) ↔
      ∃ pre suf, evs = pre ++ Event.add k :: suf ∧
        ((((⟨b, ∅⟩ : Timer).run pre).base ≤ k ∧ ((⟨b, ∅⟩ : Timer).run evs).base = k) ∨
          (k < ((⟨b, ∅⟩ : Timer).run pre).base ∧
            ((⟨b, ∅⟩ : Timer).run evs).base = ((⟨b, ∅⟩ : Timer).run pre).base)) := by
  rw [Timer.due, Set.mem_ofPred_eq, mem_pending_run]
  constructor
  · rintro ⟨_, ⟨pre, suf, rfl, hle⟩, hlt⟩
    have hmono := Timer.base_run_append ⟨b, ∅⟩ pre (Event.add k :: suf)
    exact ⟨pre, suf, rfl, by omega⟩
  · rintro ⟨pre, suf, rfl, h⟩
    exact ⟨by omega, ⟨pre, suf, rfl, by omega⟩, by omega⟩

end IdealTimer
