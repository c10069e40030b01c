import ScheduledDb.Store.ColdSlots

/-!
# `GetSlot` while slots move

`FSM.GetSlot` looks into the maps of the state machine under the read lock, and, if the key is
marked as cold, reads the cold store after it has released the lock.  Between the two steps commands
are applied.  An unarchive moves the slot from the cold store into memory, where the second step
does not look: the slot is there all the time, and `GetSlot` reports that it is not
(`lookup_misses_slot`).

`lookup_finds_iff` says which interleavings are harmless, and that what is found is always what the
slot was at some moment of the call.
-/

namespace ScheduledDb

open Machine List

/-! ## What commands do to a cold copy -/

/-- An accepted archive of the slot. -/
def Command.MovesIn (key : ℤ) (faults : ColdFaults) (cmd : Command) : Prop :=
  cmd.type = .archiveSlot ∧ faults.put = none ∧ ∃ slot ∈ cmd.coldSlot, slot.key = key

/-- An accepted unarchive or deletion of the slot, the cold copy being deleted. -/
def Command.MovesOut (key : ℤ) (faults : ColdFaults) (cmd : Command) : Prop :=
  (cmd.type = .unarchiveSlot ∧ faults.get = none ∨ cmd.type = .deleteSlot) ∧
    faults.delete = none ∧ cmd.id ≠ "" ∧ scanKey cmd.id = some key

instance (key : ℤ) (faults : ColdFaults) (cmd : Command) : Decidable (cmd.MovesIn key faults) :=
  inferInstanceAs (Decidable (_ ∧ _))

instance (key : ℤ) (faults : ColdFaults) (cmd : Command) : Decidable (cmd.MovesOut key faults) :=
  inferInstanceAs (Decidable (_ ∧ _))

namespace FSM

variable {f : FSM} {faults : ColdFaults} {cmd : Command} {key : ℤ}

/-- A copy that is moved in is the one of the command. -/
lemma coldCopy_of_movesIn (hcold : f.coldStore.isSome = true) (h : cmd.MovesIn key faults) :
    ∃ slot, (f.apply faults cmd).1.coldCopy key = some slot ∧
      (f.apply faults cmd).1.getSlot key false = some slot := by
  obtain ⟨htype, hput, slot, hslot, rfl⟩ := h
  have heffect : f.effect faults cmd.wire = .archive slot := by
    simp [effect, Command.wire, htype, hcold, hput, Option.mem_def.mp hslot]
  obtain ⟨c, hc⟩ := Option.isSome_iff_exists.mp hcold
  refine ⟨slot, ?_, ?_⟩
  · rw [apply_fst, heffect]
    simp [Effect.act, coldCopy, hc]
  · rw [apply_fst, heffect, getSlot_archive faults _ hcold, if_pos rfl]

lemma coldCopy_of_movesOut (hcold : f.coldStore.isSome = true) (h : cmd.MovesOut key faults) :
    (f.apply faults cmd).1.coldCopy key = none := by
  obtain ⟨htype, hdelete, hid, hscan⟩ := h
  have heffect : f.effect faults cmd.wire = .unarchive key ∨
      f.effect faults cmd.wire = .dropSlot key := by
    rcases htype with ⟨htype, hget⟩ | htype
    · left
      simp [effect, Command.wire, htype, hcold, hget, keyEffect, hid, hscan]
    · right
      simp [effect, Command.wire, htype, keyEffect, hid, hscan]
  have hdeleted : key = key ∧ faults.delete.isSome = false := by simp [hdelete]
  rw [apply_fst, coldCopy]
  rcases heffect with heffect | heffect
  · rw [heffect]
    exact (bind_deleteColdSlot ..).trans (if_pos hdeleted)
  · rw [heffect]
    exact (bind_deleteColdSlot ..).trans (if_pos hdeleted)

/-- Other commands leave it alone. -/
lemma coldCopy_of_not_moves (hin : ¬ cmd.MovesIn key faults) (hout : ¬ cmd.MovesOut key faults) :
    (f.apply faults cmd).1.coldCopy key = f.coldCopy key := by
  have hof := f.effectOf faults cmd.wire
  -- a deletion that is no move is of another key, or fails
  have hdelete : ∀ {key'}, (key = key' → faults.delete ≠ none) →
      ((f.coldStore.map fun c => deleteColdSlot c faults key').bind fun c => c.lookup key)
        = f.coldCopy key := by
    intro key' hno
    rw [bind_deleteColdSlot, if_neg]
    · rfl
    · rintro ⟨hkey, hfine⟩
      exact hno hkey (by simpa using hfine)
  rw [apply_fst]
  cases heffect : f.effect faults cmd.wire with
  | archive slot =>
    rw [heffect] at hof
    cases hof with
    | archive type arg cold =>
      have htype : cmd.type = .archiveSlot := type
      have hput : faults.put = none := by
        by_contra hput
        simp [effect, Command.wire, htype, hput] at heffect
      have hne : key ≠ slot.key := fun hkey => hin ⟨htype, hput, slot, arg, hkey.symm⟩
      obtain ⟨c, hc⟩ := Option.isSome_iff_exists.mp cold
      simp [Effect.act, coldCopy, hc, hne]
  | unarchive key' =>
    rw [heffect] at hof
    cases hof with
    | unarchive type arg scan cold =>
      have htype : cmd.type = .unarchiveSlot := type
      have hget : faults.get = none := by
        by_contra hget
        simp [effect, Command.wire, htype, hget] at heffect
      exact hdelete fun hkey hfine =>
        hout ⟨Or.inl ⟨htype, hget⟩, hfine, arg, scan.trans (congrArg some hkey.symm)⟩
  | dropSlot key' =>
    rw [heffect] at hof
    cases hof with
    | dropSlot type arg scan =>
      exact hdelete fun hkey hfine =>
        hout ⟨Or.inr type, hfine, arg, scan.trans (congrArg some hkey.symm)⟩
  | _ => rfl

/-! ## Between the two steps -/

lemma applyLog_concat (f : FSM) (log : List (ColdFaults × Command)) (entry : ColdFaults × Command) :
    f.applyLog (log ++ [entry]) = ((f.applyLog log).apply entry.1 entry.2).1 := by
  simp [applyLog]

lemma isSome_coldStore_applyLog (log : List (ColdFaults × Command)) :
    (f.applyLog log).coldStore.isSome = f.coldStore.isSome := by
  induction log using reverseRecOn with
  | nil => rfl
  | append_singleton log entry ih => rw [applyLog_concat, isSome_coldStore_apply, ih]

/-- Whenever the copy is taken away, a later command puts one back. -/
def PutBack (key : ℤ) (log : List (ColdFaults × Command)) : Prop :=
  ∀ l entry l', log = l ++ entry :: l' → entry.2.MovesOut key entry.1 →
    ∃ later ∈ l', later.2.MovesIn key later.1

lemma putBack_concat (log : List (ColdFaults × Command)) (entry : ColdFaults × Command) :
    PutBack key (log ++ [entry]) ↔
      ¬ entry.2.MovesOut key entry.1 ∧ (entry.2.MovesIn key entry.1 ∨ PutBack key log) := by
  constructor
  · intro h
    have hentry : ¬ entry.2.MovesOut key entry.1 := fun hout => by
      simpa using h log entry [] rfl hout
    refine ⟨hentry, or_iff_not_imp_left.mpr fun hin l out l' heq hout => ?_⟩
    obtain ⟨later, hlater, hmoves⟩ := h l out (l' ++ [entry]) (by simp [heq]) hout
    rcases mem_append.mp hlater with hlater | hlater
    · exact ⟨later, hlater, hmoves⟩
    · rw [mem_singleton.mp hlater] at hmoves
      exact absurd hmoves hin
  · rintro ⟨hentry, h⟩ l out l' heq hout
    rcases eq_nil_or_concat l' with rfl | ⟨m, last, rfl⟩
    · -- the last entry takes nothing away
      obtain ⟨_, hlast⟩ := append_inj' heq rfl
      exact absurd (cons.inj hlast).1.symm fun h => hentry (h ▸ hout)
    · rw [concat_eq_append, ← cons_append, ← append_assoc] at heq
      obtain ⟨rfl, hlast⟩ := append_inj' heq rfl
      obtain rfl := (cons.inj hlast).1
      rcases h with hin | hback
      · exact ⟨entry, by simp, hin⟩
      · obtain ⟨later, hlater, hmoves⟩ := hback l out m rfl hout
        exact ⟨later, by simp [hlater], hmoves⟩

/-- **The copy is there at the end if it was at the beginning and always put back.** -/
lemma isSome_coldCopy_applyLog_iff (hcopy : (f.coldCopy key).isSome = true)
    (log : List (ColdFaults × Command)) :
    ((f.applyLog log).coldCopy key).isSome = true ↔ PutBack key log := by
  have hcold : f.coldStore.isSome = true := by
    obtain ⟨slot, hslot⟩ := Option.isSome_iff_exists.mp hcopy
    obtain ⟨c, hc, _⟩ := Option.bind_eq_some_iff.mp hslot
    simp [hc]
  induction log using reverseRecOn with
  | nil => exact iff_of_true hcopy fun l entry l' heq => by simp at heq
  | append_singleton log entry ih =>
    have hcold' := (isSome_coldStore_applyLog (f := f) log).trans hcold
    rw [applyLog_concat, putBack_concat]
    by_cases hout : entry.2.MovesOut key entry.1
    · rw [coldCopy_of_movesOut hcold' hout]
      simp [hout]
    · by_cases hin : entry.2.MovesIn key entry.1
      · obtain ⟨slot, hslot, _⟩ := coldCopy_of_movesIn hcold' hin
        simp [hslot, hout, hin]
      · rw [coldCopy_of_not_moves hin hout]
        simpa [hout, hin] using ih

/-- The copy at the end is what the slot was at some moment. -/
lemma coldCopy_applyLog_shown (hshown : f.getSlot key false = f.coldCopy key)
    (log : List (ColdFaults × Command)) {slot : SlotData}
    (h : (f.applyLog log).coldCopy key = some slot) :
    ∃ l, l <+: log ∧ (f.applyLog l).getSlot key false = some slot := by
  induction log using reverseRecOn generalizing slot with
  | nil => exact ⟨[], prefix_refl _, hshown.trans h⟩
  | append_singleton log entry ih =>
    have hcold : (f.applyLog log).coldStore.isSome = true := by
      obtain ⟨c, hc, _⟩ := Option.bind_eq_some_iff.mp h
      rw [isSome_coldStore_applyLog, ← isSome_coldStore_applyLog (log ++ [entry]), hc]
      rfl
    rw [applyLog_concat] at h
    by_cases hin : entry.2.MovesIn key entry.1
    · obtain ⟨slot', hslot', hget⟩ := coldCopy_of_movesIn hcold hin
      obtain rfl : slot' = slot := Option.some.inj (hslot'.symm.trans h)
      exact ⟨log ++ [entry], prefix_refl _, by rwa [applyLog_concat]⟩
    · by_cases hout : entry.2.MovesOut key entry.1
      · rw [coldCopy_of_movesOut hcold hout] at h
        cases h
      · rw [coldCopy_of_not_moves hin hout] at h
        obtain ⟨l, hl, hget⟩ := ih h
        exact ⟨l, hl.trans (prefix_append _ _), hget⟩

/-- **When `GetSlot` finds a slot that is there all the time.**  `f` is the state machine when
`GetSlot` looks into its maps, `log` the commands that are applied before it reads the cold store.
The slot is found if and only if it is in memory at the first look, or the read succeeds and every
copy that was taken out of the cold store has been put back.  And what is found is the slot as it was
at some moment of the call. -/
theorem lookup_finds_iff (f : FSM) (key : ℤ) (readFails : Bool) (log : List (ColdFaults × Command))
    (hexists : ∀ l, l <+: log → ((f.applyLog l).getSlot key false).isSome = true) :
    let found := (f.applyLog log).finishGetSlot key readFails (f.lookupSlot key)
    (found.isSome = true ↔
        (f.slots.lookup key).isSome = true ∨ readFails = false ∧ PutBack key log) ∧
      ∀ slot ∈ found, ∃ l, l <+: log ∧ (f.applyLog l).getSlot key false = some slot := by
  intro found
  have hstart : (f.getSlot key false).isSome = true := hexists [] nil_prefix
  rw [getSlot_eq] at hstart
  cases hhot : f.slots.lookup key with
  | some slot =>
    have hfound : found = some slot := by simp [found, finishGetSlot, lookupSlot, hhot]
    rw [hfound]
    refine ⟨by simp, fun slot' hslot' => ⟨[], nil_prefix, ?_⟩⟩
    rw [← hslot', applyLog_nil, getSlot_eq, hhot]
    rfl
  | none =>
    rw [hhot, Option.none_or] at hstart
    have hmark : key ∈ f.coldSlotMeta := by
      by_contra hno
      simp [hno] at hstart
    simp only [hmark, and_self, if_true] at hstart
    have hfound : found = if readFails = false then (f.applyLog log).coldCopy key else none := by
      simp [found, finishGetSlot, lookupSlot, hhot, hmark]
    rw [hfound]
    split_ifs with hread
    · refine ⟨by simp [hread, isSome_coldCopy_applyLog_iff hstart], fun slot hslot => ?_⟩
      refine coldCopy_applyLog_shown ?_ log hslot
      simp [getSlot_eq, hhot, hmark]
    · simp [hread]

/-! ## A slot that goes and comes -/

/-- A state machine whose slot 5 is cold. -/
def coldFive : FSM :=
  { newFSM with
    coldSlotMeta := {5}
    coldStore := some (Finmap.singleton 5 ⟨5, 50, 59, ["a", "b"]⟩) }

def unarchiveFive : ColdFaults × Command := ({}, { type := .unarchiveSlot, id := "5" })

def archiveFive : ColdFaults × Command :=
  ({}, { type := .archiveSlot, coldSlot := some ⟨5, 50, 59, ["a", "b"]⟩ })

/-- Out of the cold store and back into it between the two steps: the slot is found. -/
theorem lookup_finds_returned :
    ((coldFive.applyLog [unarchiveFive, archiveFive]).finishGetSlot 5 false
      (coldFive.lookupSlot 5)).isSome = true := by
  have hexists : ∀ l ∈ [unarchiveFive, archiveFive].inits,
      ((coldFive.applyLog l).getSlot 5 false).isSome = true := by decide +kernel
  refine (lookup_finds_iff coldFive 5 false _ fun l hl =>
    hexists l (mem_inits l _ |>.mpr hl)).1.mpr (Or.inr ⟨rfl, ?_⟩)
  exact (putBack_concat [unarchiveFive] archiveFive).mpr ⟨by decide, Or.inl (by decide)⟩

/-- **`GetSlot` misses a slot that is there**: cold when it looks, unarchived before it reads, and
in the state machine at every moment. -/
theorem lookup_misses_slot :
    (∀ l ∈ [unarchiveFive].inits, ((coldFive.applyLog l).getSlot 5 false).isSome = true) ∧
      (coldFive.applyLog [unarchiveFive]).finishGetSlot 5 false (coldFive.lookupSlot 5) = none := by
  decide +kernel

end FSM

end ScheduledDb
