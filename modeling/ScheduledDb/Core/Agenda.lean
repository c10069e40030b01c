import Mathlib.Data.Int.Notation
import Mathlib.Data.List.Nodup
import Mathlib.Tactic.Lemma

/-!
# Agendas

What a scheduler is for, without clocks, queues or stores.  An agenda has at most one entry for each
id.  Entries are made, struck out and called off; a *pass* at some time carries out all that is due
by then, except what was called off, and puts in its place what comes next, if anything does.

The order within a pass is left open, so a step is a relation.  But what is carried out under one id
depends on the steps that concern that id and on the passes only:

* `Runs.done_of_id`: the things carried out under an id are those of its `history`;
* `history_eq_occurrences`: as long as only passes concern the id, these are its `occurrences`;
* `occurrences_once`: what has nothing after it is carried out once, by the first pass that is not
  too early.
-/

universe u v

namespace Agenda

open List Option

/-- What there is to know about the things on an agenda: under which id they stand, when they are due,
and what comes after them if they are carried out at a given time. -/
structure Rules (ι : Type u) (α : Type v) where
  id : α → ι
  due : α → Option ℤ
  next : ℤ → α → Option α

/-- An entry, which may have been called off. -/
structure Entry (α : Type v) where
  item : α
  calledOff : Bool := false
  deriving DecidableEq

/-- What may happen to an agenda. -/
inductive Op (ι : Type u) (α : Type v) where
  | enter (item : α)
  | strike (id : ι)
  | callOff (id : ι)
  | pass (now : ℤ)
  /-- Something that has nothing to do with the agenda. -/
  | rest

/-- An agenda, with what has been carried out so far, in that order. -/
structure State (ι : Type u) (α : Type v) where
  plan : ι → Option (Entry α)
  done : List α

namespace Rules

variable {ι : Type u} {α : Type v} (R : Rules ι α)

/-- The item is due at the given time. -/
def Due (now : ℤ) (item : α) : Prop := ∃ time ∈ R.due item, time ≤ now

instance (now : ℤ) (item : α) : Decidable (R.Due now item) :=
  match h : R.due item with
  | none => isFalse fun ⟨_, hmem, _⟩ => by simp [h] at hmem
  | some time => decidable_of_iff (time ≤ now) (by simp [Due, h])

/-! ## Occurrences -/

/-- What is carried out of an item and what comes after it, by passes at the given times. -/
def occurrences : List ℤ → α → List α
  | [], _ => []
  | now :: times, item =>
    if R.Due now item then
      item ::
        match R.next now item with
        | none => []
        | some item' => occurrences times item'
    else occurrences times item

variable {R} {item : α} {op : Op ι α} {entry : Option (Entry α)}

/-- **Once.**  What has nothing after it is carried out by the first pass that is not too early, and
by no other. -/
theorem occurrences_once (hlast : ∀ now, R.next now item = none) (times : List ℤ) :
    R.occurrences times item = if ∃ now ∈ times, R.Due now item then [item] else [] := by
  induction times with
  | nil => simp [occurrences]
  | cons now times ih =>
    rw [occurrences]
    by_cases hdue : R.Due now item
    · rw [if_pos hdue, hlast, if_pos ⟨now, mem_cons_self, hdue⟩]
    · rw [if_neg hdue, ih]
      simp [hdue]

/-- What holds of an item and of what comes after it holds of all occurrences. -/
lemma forall_mem_occurrences {P : α → Prop}
    (hnext : ∀ now item item', P item → R.next now item = some item' → P item') (hitem : P item)
    (times : List ℤ) : ∀ x ∈ R.occurrences times item, P x := by
  induction times generalizing item with
  | nil => simp [occurrences]
  | cons now times ih =>
    rw [occurrences]
    split_ifs with hdue
    · cases hitem' : R.next now item with
      | none => simpa using hitem
      | some item' => simpa using ⟨hitem, ih (hnext now item item' hitem hitem')⟩
    · exact ih hitem

/-- What comes next is due after the time of the pass. -/
def Advances (R : Rules ι α) : Prop :=
  ∀ now item item', R.next now item = some item' → ∀ time ∈ R.due item', now < time

lemma occurrences_of_due_eq_none (hdue : R.due item = none) (times : List ℤ) :
    R.occurrences times item = [] := by
  induction times with
  | nil => rfl
  | cons now times ih =>
    have hnot : ¬ R.Due now item := by
      rintro ⟨time, htime, -⟩
      simp [hdue] at htime
    rw [occurrences, if_neg hnot, ih]

/-- Nothing is due before the item it comes after. -/
lemma due_le_of_mem_occurrences (hnext : R.Advances) {times : List ℤ} {later : α}
    (hlater : later ∈ R.occurrences times item) {time time' : ℤ} (htime : R.due item = some time)
    (htime' : R.due later = some time') : time ≤ time' := by
  induction times generalizing item time with
  | nil => simp [occurrences] at hlater
  | cons now times ih =>
    rw [occurrences] at hlater
    split_ifs at hlater with hdue
    · rcases mem_cons.mp hlater with rfl | hrest
      · rw [htime] at htime'
        have heq := some.inj htime'
        omega
      · obtain ⟨due, hdue, hle⟩ := hdue
        obtain rfl : due = time := mem_unique hdue htime
        cases hitem' : R.next now item with
        | none => simp [hitem'] at hrest
        | some item' =>
          rw [hitem'] at hrest
          cases hfirst : R.due item' with
          | none => simp [occurrences_of_due_eq_none hfirst] at hrest
          | some first =>
            have hafter := hnext now item item' hitem' first hfirst
            have hbefore := ih hrest hfirst
            omega
    · exact ih hlater htime

/-- **No occurrence twice**: each is due later than the one before it. -/
theorem pairwise_occurrences (hnext : R.Advances) (times : List ℤ) (item : α) :
    (R.occurrences times item).Pairwise fun earlier later =>
      ∀ time ∈ R.due earlier, ∀ time' ∈ R.due later, time < time' := by
  induction times generalizing item with
  | nil => exact Pairwise.nil
  | cons now times ih =>
    rw [occurrences]
    split_ifs with hdue
    · cases hitem' : R.next now item with
      | none => exact pairwise_singleton _ item
      | some item' =>
        refine Pairwise.cons (fun later hlater time htime time' htime' => ?_) (ih item')
        obtain ⟨due, hdue, hle⟩ := hdue
        obtain rfl : due = time := mem_unique hdue htime
        cases hfirst : R.due item' with
        | none => simp [occurrences_of_due_eq_none hfirst] at hlater
        | some first =>
          have hafter := hnext now item item' hitem' first hfirst
          have hbefore := due_le_of_mem_occurrences hnext hlater hfirst htime'
          omega
    · exact ih item

/-! ## Steps -/

/-- What of an entry is carried out. -/
def carriedOut (R : Rules ι α) : Op ι α → Option (Entry α) → Option α
  | .pass now, some ⟨item, false⟩ => if R.Due now item then some item else none
  | _, _ => none

/-- The time of a pass. -/
def passTime : Op ι α → Option ℤ
  | .pass now => some now
  | _ => none

lemma carriedOut_eq_some (h : R.carriedOut op entry = some item) : entry = some ⟨item, false⟩ := by
  match op, entry with
  | .pass now, some ⟨item', false⟩ =>
    rw [carriedOut] at h
    split_ifs at h
    rw [some.inj h]
  | .pass now, some ⟨item', true⟩ => cases h
  | .pass now, none => cases h
  | .enter _, _ => cases h
  | .strike _, _ => cases h
  | .callOff _, _ => cases h
  | .rest, _ => cases h

lemma carriedOut_of_passTime (hpass : passTime op = none) (entry : Option (Entry α)) :
    R.carriedOut op entry = none := by
  cases op with
  | pass now => cases hpass
  | _ => rfl

lemma carriedOut_pass {now : ℤ} :
    R.carriedOut (.pass now) entry = some item ↔ entry = some ⟨item, false⟩ ∧ R.Due now item := by
  constructor
  · intro h
    have hentry := carriedOut_eq_some h
    rw [hentry, carriedOut] at h
    split_ifs at h with hdue
    exact ⟨hentry, hdue⟩
  · rintro ⟨rfl, hdue⟩
    rw [carriedOut, if_pos hdue]

section Steps

variable [DecidableEq ι] (R)

/-- What becomes of the entry of an id. -/
def entryAfter (id : ι) : Op ι α → Option (Entry α) → Option (Entry α)
  | .enter item, entry => if id = R.id item then some ⟨item, false⟩ else entry
  | .strike id', entry => if id = id' then none else entry
  | .callOff id', entry =>
    if id = id' then entry.map fun e => { e with calledOff := true } else entry
  | .pass now, entry =>
    entry.bind fun e =>
      if R.Due now e.item then (R.next now e.item).map fun item => ⟨item, false⟩ else some e
  | .rest, entry => entry

/-- A step: every entry becomes what it should, and everything that is to be carried out is, once. -/
structure Step (op : Op ι α) (s s' : State ι α) : Prop where
  plan : ∀ id, s'.plan id = R.entryAfter id op (s.plan id)
  done : ∃ l, s'.done = s.done ++ l ∧ (l.map R.id).Nodup ∧
    ∀ item, item ∈ l ↔ R.carriedOut op (s.plan (R.id item)) = some item

/-- Steps in a row. -/
inductive Runs : List (Op ι α) → State ι α → State ι α → Prop
  | nil (s : State ι α) : Runs [] s s
  | cons {op : Op ι α} {ops : List (Op ι α)} {s s' s'' : State ι α} :
      R.Step op s s' → Runs ops s' s'' → Runs (op :: ops) s s''

/-- Every entry stands under the id of its item. -/
def Filed (plan : ι → Option (Entry α)) : Prop :=
  ∀ id entry, plan id = some entry → R.id entry.item = id

/-- What comes after an item stands under the same id. -/
def KeepsIds : Prop := ∀ now item item', R.next now item = some item' → R.id item' = R.id item

/-! ## Under one id -/

/-- The things carried out under an id, by what concerns it. -/
def history (id : ι) : List (Op ι α) → Option (Entry α) → List α
  | [], _ => []
  | op :: ops, entry => (R.carriedOut op entry).toList ++ history id ops (R.entryAfter id op entry)

/-- What becomes of the entry of an id in several steps. -/
def entryBy (id : ι) (ops : List (Op ι α)) (entry : Option (Entry α)) : Option (Entry α) :=
  ops.foldl (fun entry op => R.entryAfter id op entry) entry

variable {R} {s s' : State ι α} {op : Op ι α} {ops : List (Op ι α)}

/-- A step that is no pass carries nothing out. -/
lemma Step.of_passTime (hpass : passTime op = none)
    (hplan : ∀ id, s'.plan id = R.entryAfter id op (s.plan id)) (hdone : s'.done = s.done) :
    R.Step op s s' := by
  refine ⟨hplan, [], by rw [hdone, append_nil], nodup_nil, fun item => ?_⟩
  simp [carriedOut_of_passTime hpass]

/-- A step that is well filed leaves a well-filed agenda. -/
lemma Filed.step (hfiled : R.Filed s.plan) (hnext : R.KeepsIds) (h : R.Step op s s') :
    R.Filed s'.plan := by
  intro id entry hentry
  rw [h.plan] at hentry
  cases op with
  | enter item =>
    rw [entryAfter] at hentry
    split_ifs at hentry with hid
    · rw [← some.inj hentry]
      exact hid.symm
    · exact hfiled id entry hentry
  | strike id' =>
    rw [entryAfter] at hentry
    split_ifs at hentry
    exact hfiled id entry hentry
  | callOff id' =>
    rw [entryAfter] at hentry
    split_ifs at hentry
    · obtain ⟨e, he, rfl⟩ := map_eq_some_iff.mp hentry
      exact hfiled id e he
    · exact hfiled id entry hentry
  | pass now =>
    obtain ⟨e, he, hafter⟩ := bind_eq_some_iff.mp hentry
    have hid := hfiled id e he
    split_ifs at hafter
    · obtain ⟨item, hitem, rfl⟩ := map_eq_some_iff.mp hafter
      exact (hnext now e.item item hitem).trans hid
    · rwa [← some.inj hafter]
  | rest => exact hfiled id entry hentry

/-- In a list of things under different ids there is at most one under a given id. -/
lemma filter_id_eq {l : List α} (hnodup : (l.map R.id).Nodup) (id : ι) {found : Option α}
    (hfound : ∀ item, found = some item → R.id item = id)
    (hmem : ∀ item, R.id item = id → (item ∈ l ↔ found = some item)) :
    l.filter (fun item => R.id item = id) = found.toList := by
  have hperm : (l.filter fun item => R.id item = id).Perm found.toList := by
    refine (perm_ext_iff_of_nodup (hnodup.of_map.filter _) ?_).mpr fun item => ?_
    · cases found with
      | none => exact nodup_nil
      | some item => exact nodup_singleton item
    · rw [mem_filter, decide_eq_true_eq, mem_toList]
      constructor
      · rintro ⟨hl, hid⟩
        exact (hmem item hid).mp hl
      · intro hitem
        have hid := hfound item hitem
        exact ⟨(hmem item hid).mpr hitem, hid⟩
  cases found with
  | none => exact hperm.eq_nil
  | some item => exact perm_singleton.mp hperm

/-- What a step carries out under an id. -/
lemma Step.done_of_id (h : R.Step op s s') (hfiled : R.Filed s.plan) (id : ι) :
    s'.done.filter (fun item => R.id item = id)
      = s.done.filter (fun item => R.id item = id) ++ (R.carriedOut op (s.plan id)).toList := by
  obtain ⟨l, hdone, hnodup, hmem⟩ := h.done
  rw [hdone, filter_append]
  congr 1
  refine filter_id_eq hnodup id (fun item hitem => ?_) fun item hid => ?_
  · exact hfiled id _ (carriedOut_eq_some hitem)
  · rw [hmem, hid]

/-- **What is carried out under an id.** -/
theorem Runs.done_of_id (h : R.Runs ops s s') (hnext : R.KeepsIds) (hfiled : R.Filed s.plan)
    (id : ι) :
    s'.done.filter (fun item => R.id item = id)
      = s.done.filter (fun item => R.id item = id) ++ R.history id ops (s.plan id) := by
  induction h with
  | nil s => simp [history]
  | cons hstep _ ih =>
    rw [ih (hfiled.step hnext hstep), hstep.done_of_id hfiled, hstep.plan, history,
      append_assoc]

lemma Runs.plan_eq (h : R.Runs ops s s') (id : ι) : s'.plan id = R.entryBy id ops (s.plan id) := by
  induction h with
  | nil s => rfl
  | cons hstep _ ih => rw [ih, hstep.plan, entryBy, entryBy, foldl_cons]

lemma Runs.append {ops' : List (Op ι α)} {s'' : State ι α} (h : R.Runs ops s s')
    (h' : R.Runs ops' s' s'') : R.Runs (ops ++ ops') s s'' := by
  induction h with
  | nil s => exact h'
  | cons hstep _ ih => exact .cons hstep (ih h')

/-! ## An id that only passes concern -/

/-- The op makes, strikes out or calls off the entry of the id. -/
def Concerns (R : Rules ι α) (id : ι) : Op ι α → Prop
  | .enter item => id = R.id item
  | .strike id' => id = id'
  | .callOff id' => id = id'
  | .pass _ => False
  | .rest => False

instance (id : ι) : ∀ op : Op ι α, Decidable (R.Concerns id op)
  | .enter item => inferInstanceAs (Decidable (id = R.id item))
  | .strike id' => inferInstanceAs (Decidable (id = id'))
  | .callOff id' => inferInstanceAs (Decidable (id = id'))
  | .pass _ => isFalse fun h => h
  | .rest => isFalse fun h => h

lemma entryAfter_of_not_concerns {id : ι} (hop : ¬ R.Concerns id op) (hpass : passTime op = none)
    (entry : Option (Entry α)) : R.entryAfter id op entry = entry := by
  cases op with
  | enter item => exact if_neg hop
  | strike id' => exact if_neg hop
  | callOff id' => exact if_neg hop
  | pass now => cases hpass
  | rest => rfl

/-- Under an id without entry nothing happens before an op that concerns it. -/
lemma history_append_of_none (id : ι) (hops : ∀ op ∈ ops, ¬ R.Concerns id op)
    (rest : List (Op ι α)) : R.history id (ops ++ rest) none = R.history id rest none := by
  induction ops with
  | nil => rfl
  | cons op ops ih =>
    have hrest := ih fun op' hop' => hops op' (mem_cons_of_mem op hop')
    rw [cons_append]
    cases hpass : passTime op with
    | none =>
      rw [history, carriedOut_of_passTime hpass,
        entryAfter_of_not_concerns (hops op mem_cons_self) hpass]
      exact hrest
    | some now =>
      cases op with
      | pass now' => exact hrest
      | _ => cases hpass

/-- **Occurrences.**  An entry that only passes concern; if it was called off, the first occurrence
is left out. -/
theorem history_eq_occurrences (id : ι) (hops : ∀ op ∈ ops, ¬ R.Concerns id op) (item : α)
    (calledOff : Bool) :
    R.history id ops (some ⟨item, calledOff⟩)
      = (R.occurrences (ops.filterMap passTime) item).drop calledOff.toNat := by
  induction ops generalizing item calledOff with
  | nil => simp [history, occurrences]
  | cons op ops ih =>
    have hothers : ∀ op' ∈ ops, ¬ R.Concerns id op' := fun op' hop' =>
      hops op' (mem_cons_of_mem op hop')
    cases hpass : passTime op with
    | none =>
      rw [history, carriedOut_of_passTime hpass,
        entryAfter_of_not_concerns (hops op mem_cons_self) hpass, filterMap_cons, hpass]
      exact ih hothers item calledOff
    | some now =>
      obtain rfl : op = .pass now := by
        cases op with
        | pass now' => rw [some.inj hpass]
        | _ => cases hpass
      rw [history, filterMap_cons, hpass]
      simp only [entryAfter, bind_some, occurrences]
      by_cases hdue : R.Due now item
      · -- carried out, or not, and replaced
        have hafter : R.history id ops ((R.next now item).map fun item => ⟨item, false⟩)
            = match R.next now item with
              | none => []
              | some item' => R.occurrences (ops.filterMap passTime) item' := by
          cases R.next now item with
          | none => simpa [history] using history_append_of_none id hothers []
          | some item' => exact ih hothers item' false
        rw [if_pos hdue, if_pos hdue, hafter]
        cases calledOff with
        | false => simp [carriedOut, hdue]
        | true => simp [carriedOut]
      · rw [if_neg hdue, if_neg hdue, ih hothers item calledOff]
        cases calledOff with
        | false => simp [carriedOut, hdue]
        | true => simp [carriedOut]

/-- From the moment an item is entered. -/
theorem history_enter (item : α) (hops : ∀ op ∈ ops, ¬ R.Concerns (R.id item) op)
    (entry : Option (Entry α)) :
    R.history (R.id item) (.enter item :: ops) entry
      = R.occurrences (ops.filterMap passTime) item := by
  show [] ++ R.history _ ops (if R.id item = R.id item then some ⟨item, false⟩ else entry) = _
  rw [if_pos rfl, nil_append, history_eq_occurrences _ hops]
  rfl

end Steps

end Rules

end Agenda
