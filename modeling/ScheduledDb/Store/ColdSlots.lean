import ScheduledDb.Store.Status
import ScheduledDb.Store.Store

/-!
# Cold slots

A slot is in memory, in the cold store, or in both.  What `GetSlot` returns after each of the four
slot commands is said once, for all keys; the store's four methods are then compared with the same
operations on a plain map, on which archiving does nothing.

Only `UnarchiveSlot` can tell the difference: it puts back what the cold store has, whether or not a
newer slot was written meanwhile.  `shows_plain_iff` says that cold spilling is invisible exactly if
no `UnarchiveSlot` finds such a stale copy, and in `unarchive_overwrites` one does.
-/

namespace ScheduledDb

open Machine Program

namespace FSM

variable (faults : ColdFaults) (f : FSM) (k : ℤ) (readFails : Bool)

/-- Deleting a cold slot leaves the others as they are. -/
lemma coldCopy_deleteColdSlot {key : ℤ} (hk : k ≠ key) :
    ((f.coldStore.map fun c => deleteColdSlot c faults key).bind fun c => c.lookup k)
      = f.coldCopy k := by
  rw [bind_deleteColdSlot, if_neg fun hkey => hk hkey.1, coldCopy]

/-! ## Looking up a slot after a command -/

lemma getSlot_putSlot (slot : SlotData) :
    ((Effect.putSlot slot).act faults f).getSlot k readFails
      = if k = slot.key then some slot else f.getSlot k readFails := by
  rw [getSlot_eq, getSlot_eq]
  by_cases hk : k = slot.key
  · subst hk
    simp [Effect.act]
  · simp only [Effect.act, Finmap.lookup_insert_of_ne _ hk, if_neg hk]
    rfl

lemma getSlot_dropSlot (key : ℤ) :
    ((Effect.dropSlot key).act faults f).getSlot k readFails
      = if k = key then none else f.getSlot k readFails := by
  rw [getSlot_eq, getSlot_eq]
  by_cases hk : k = key
  · subst hk
    simp [Effect.act]
  · simp [Effect.act, hk, coldCopy, coldCopy_deleteColdSlot faults f k hk]

lemma getSlot_archive {f : FSM} (hcold : f.coldStore.isSome = true) (slot : SlotData) :
    ((Effect.archive slot).act faults f).getSlot k false
      = if k = slot.key then some slot else f.getSlot k false := by
  obtain ⟨c, hc⟩ := Option.isSome_iff_exists.mp hcold
  rw [getSlot_eq, getSlot_eq]
  by_cases hk : k = slot.key
  · subst hk
    simp [Effect.act, coldCopy, hc]
  · simp [Effect.act, hk, coldCopy, hc]

/-- The cold copy goes first. -/
lemma getSlot_unarchive (key : ℤ) :
    ((Effect.unarchive key).act faults f).getSlot k readFails
      = if k = key then (f.coldCopy key).or (f.slots.lookup key) else f.getSlot k readFails := by
  have hslots : ((Effect.unarchive key).act faults f).slots.lookup k
      = if k = key then (f.coldCopy key).or (f.slots.lookup key) else f.slots.lookup k := by
    unfold coldCopy
    cases hcopy : f.coldStore.bind fun c => c.lookup key with
    | none =>
      split_ifs with hk
      · subst hk
        simp [Effect.act, hcopy]
      · simp [Effect.act, hcopy]
    | some slot => simp [Effect.act, hcopy, Finmap.lookup_insert_ite]
  rw [getSlot_eq, getSlot_eq, hslots]
  by_cases hk : k = key
  · simp [Effect.act, hk]
  · simp [Effect.act, hk, coldCopy, coldCopy_deleteColdSlot faults f k hk]

/-- The cold store has nothing under the key, or what `GetSlot` shows. -/
def CopyCurrent (f : FSM) (key : ℤ) : Prop :=
  ∀ slot ∈ f.coldCopy key, f.getSlot key false = some slot

instance (f : FSM) (key : ℤ) : Decidable (f.CopyCurrent key) :=
  inferInstanceAs (Decidable (∀ slot ∈ f.coldCopy key, _))

/-- **When bringing a slot back does not show.** -/
lemma coldCopy_or_hot_iff (key : ℤ) :
    (f.coldCopy key).or (f.slots.lookup key) = f.getSlot key false ↔ f.CopyCurrent key := by
  rw [CopyCurrent, getSlot_eq]
  cases hcopy : f.coldCopy key with
  | none =>
    cases f.slots.lookup key <;> simp
  | some slot => simp [eq_comm]

/-- What `GetSlot` finds is filed under its key. -/
lemma Filed.getSlot {f : FSM} (h : f.Filed) {key : ℤ} {readFails : Bool} {slot : SlotData}
    (hslot : f.getSlot key readFails = some slot) : slot.key = key := by
  rw [getSlot_eq] at hslot
  rcases Option.or_eq_some_iff.mp hslot with hhot | ⟨-, hcopy⟩
  · exact h.slots key slot hhot
  · split_ifs at hcopy
    obtain ⟨c, hc, hlook⟩ := Option.bind_eq_some_iff.mp hcopy
    exact h.cold c hc key slot hlook

/-! ## The commands as effects -/

lemma effect_createSlot (slot : SlotData) :
    (f.apply faults { type := .createSlot, slot := some slot }).1
      = (Effect.putSlot slot).act faults f := by
  rw [apply_fst]
  rfl

lemma effect_deleteSlot {key : ℤ} (hkey : InRange key) :
    (f.apply faults { type := .deleteSlot, id := printKey key }).1
      = (Effect.dropSlot key).act faults f := by
  rw [apply_fst]
  simp [effect, Command.wire, keyEffect, printKey_ne_empty, scanKey_printKey hkey]

lemma effect_archiveSlot {f : FSM} (hcold : f.coldStore.isSome = true) {faults : ColdFaults}
    (hput : faults.put = none) (slot : SlotData) :
    (f.apply faults { type := .archiveSlot, coldSlot := some slot }).1
      = (Effect.archive slot).act faults f := by
  rw [apply_fst]
  simp [effect, Command.wire, hcold, hput]

lemma effect_unarchiveSlot {f : FSM} (hcold : f.coldStore.isSome = true) {faults : ColdFaults}
    (hget : faults.get = none) {key : ℤ} (hkey : InRange key) :
    (f.apply faults { type := .unarchiveSlot, id := printKey key }).1
      = (Effect.unarchive key).act faults f := by
  rw [apply_fst]
  simp [effect, Command.wire, hcold, hget, keyEffect, printKey_ne_empty, scanKey_printKey hkey]

lemma isSome_coldStore_apply (cmd : Command) :
    (f.apply faults cmd).1.coldStore.isSome = f.coldStore.isSome := by
  rw [apply_fst]
  cases f.effect faults cmd.wire with
  | dropSlot key => simp [Effect.act]
  | archive slot => simp [Effect.act]
  | unarchive key => simp [Effect.act]
  | _ => rfl

/-- `GetSlot` shows what the map holds. -/
def Shows (f : FSM) (m : Finmap fun _ : ℤ => SlotData) : Prop :=
  ∀ key, f.getSlot key false = m.lookup key

end FSM

/-! ## The two tiers -/

/-- Where a slot is: in memory, or in the cold store. -/
inductive Tier where
  | hot
  | cold
  deriving DecidableEq, Repr

namespace FSM

variable {f : FSM} {key : ℤ}

/-- The slot a tier has under a key.  Of the cold ones, those that are marked. -/
def slotAt (f : FSM) : Tier → ℤ → Option SlotData
  | .hot, key => f.slots.lookup key
  | .cold, key => if key ∈ f.coldSlotMeta then f.coldCopy key else none

lemma getSlot_eq_slotAt (f : FSM) (key : ℤ) :
    f.getSlot key false = (f.slotAt .hot key).or (f.slotAt .cold key) := by
  simp [getSlot_eq, slotAt]

/-- What `GetSlot` finds is in one of the tiers. -/
lemma exists_slotAt_of_getSlot {readFails : Bool} {slot : SlotData}
    (h : f.getSlot key readFails = some slot) : ∃ tier, f.slotAt tier key = some slot := by
  rw [getSlot_eq] at h
  rcases Option.or_eq_some_iff.mp h with h | ⟨_, h⟩
  · exact ⟨.hot, h⟩
  · split_ifs at h with hcold
    exact ⟨.cold, (if_pos hcold.1).trans h⟩

lemma Filed.slotAt (h : f.Filed) {tier : Tier} {slot : SlotData}
    (hslot : f.slotAt tier key = some slot) : slot.key = key := by
  cases tier with
  | hot => exact h.slots key slot hslot
  | cold =>
    simp only [FSM.slotAt] at hslot
    split_ifs at hslot
    obtain ⟨c, hc, hlook⟩ := Option.bind_eq_some_iff.mp hslot
    exact h.cold c hc key slot hlook

end FSM

/-! ## The store's four methods about slots -/

/-- A call of one of the methods, with its arguments. -/
inductive SlotOp where
  | createSlot (slot : SlotData)
  | deleteSlot (key : ℤ)
  | archiveSlot (key : ℤ)
  | unarchiveSlot (key : ℤ)

/-- A leader whose commits succeed and whose cold store works. -/
def Env.Faultless (e : Env) : Prop := e.Stable ∧ e.faults = {}

namespace SlotOp

def key : SlotOp → ℤ
  | createSlot slot => slot.key
  | deleteSlot key => key
  | archiveSlot key => key
  | unarchiveSlot key => key

/-- Call the method; its error goes to the caller and is of no interest here. -/
def call : SlotOp → Program Act Unit
  | createSlot slot => Store.createSlot slot >>= fun _ => pure ()
  | deleteSlot key => Store.deleteSlot key >>= fun _ => pure ()
  | archiveSlot key => Store.archiveSlot key >>= fun _ => pure ()
  | unarchiveSlot key => Store.unarchiveSlot key >>= fun _ => pure ()

/-- The same on a plain map. -/
def onMap (m : Finmap fun _ : ℤ => SlotData) : SlotOp → Finmap fun _ : ℤ => SlotData
  | createSlot slot => m.insert slot.key slot
  | deleteSlot key => m.erase key
  | archiveSlot _ => m
  | unarchiveSlot _ => m

/-- What the method does to the state machine of a leader. -/
def effect (f : FSM) : SlotOp → Effect
  | createSlot slot => .putSlot slot
  | deleteSlot key => .dropSlot key
  | archiveSlot key => ((f.getSlot key false).map Effect.archive).getD .none
  | unarchiveSlot key => .unarchive key

/-- An `UnarchiveSlot` finds nothing in the cold store, or what `GetSlot` shows. -/
def FindsNoStaleCopy (f : FSM) : SlotOp → Prop
  | unarchiveSlot key => f.CopyCurrent key
  | _ => True

instance (f : FSM) (op : SlotOp) : Decidable (op.FindsNoStaleCopy f) :=
  match op with
  | createSlot _ => isTrue trivial
  | deleteSlot _ => isTrue trivial
  | archiveSlot _ => isTrue trivial
  | unarchiveSlot key => inferInstanceAs (Decidable (f.CopyCurrent key))

lemma wp_propose {thread : ℕ} {cmd : Command} {Q : Option String → Node → Prop} {n : Node}
    (h : Q none (n.applyCommand thread {} cmd)) :
    wp (handle thread) Env.Faultless (Store.propose cmd) Q n := by
  refine Store.wpWith_propose (fun _ _ _ he => he.1) fun e he => ?_
  rw [he.2]
  exact h

/-- **One method.** -/
lemma wp_call (op : SlotOp) (hkey : InRange op.key) {n : Node}
    (hcold : n.fsm.coldStore.isSome = true) :
    wp (handle 0) Env.Faultless op.call
      (fun _ n' => n'.fsm = (op.effect n.fsm).act {} n.fsm) n := by
  cases op with
  | createSlot slot => exact wp_bind.mpr (wp_propose (FSM.effect_createSlot {} n.fsm slot))
  | deleteSlot key => exact wp_bind.mpr (wp_propose (FSM.effect_deleteSlot {} n.fsm hkey))
  | unarchiveSlot key => exact wp_bind.mpr (wp_propose (FSM.effect_unarchiveSlot hcold rfl hkey))
  | archiveSlot key =>
    refine wp_bind.mpr ?_
    simp only [Store.archiveSlot, perform_bind, wp_step]
    intro e he
    refine wp_ite.mpr ⟨fun _ => ?_, fun hno => absurd he.1.1 hno⟩
    have hleader : (handle 0 _ .isLeader e n).1 = n := rfl
    rw [hleader]
    refine wp_bind.mpr (Store.wp_getSlot fun e' he' => ?_)
    have hread : n.fsm.getSlot key e'.faults.get.isSome = n.fsm.getSlot key false := by
      rw [he'.2]
      rfl
    rw [hread]
    cases hslot : n.fsm.getSlot key false with
    | none => simp [effect, hslot, Effect.act]
    | some slot =>
      simp only [Store.raftApply, perform_bind, wp_step]
      intro e'' he''
      have hput : ({} : ColdFaults).put = none := rfl
      have heffect := FSM.effect_archiveSlot hcold hput slot
      simpa [handle, he''.1.2, he''.2, Env.applies, effect, hslot] using heffect

variable {f : FSM} {m : Finmap fun _ : ℤ => SlotData}

/-- **One method against the plain map.** -/
lemma shows_act_iff (op : SlotOp) (hfiled : f.Filed) (hcold : f.coldStore.isSome = true)
    (hm : f.Shows m) : ((op.effect f).act {} f).Shows (op.onMap m) ↔ op.FindsNoStaleCopy f := by
  cases op with
  | createSlot slot =>
    refine iff_of_true (fun k => ?_) trivial
    rw [effect, FSM.getSlot_putSlot, onMap, Finmap.lookup_insert_ite, hm k]
  | deleteSlot key =>
    refine iff_of_true (fun k => ?_) trivial
    rw [effect, FSM.getSlot_dropSlot, onMap, Finmap.lookup_erase_ite, hm k]
  | archiveSlot key =>
    refine iff_of_true (fun k => ?_) trivial
    cases hslot : f.getSlot key false with
    | none => simpa [effect, hslot, Effect.act, onMap] using hm k
    | some slot =>
      simp only [effect, hslot, Option.map_some, Option.getD_some, onMap]
      rw [FSM.getSlot_archive {} k hcold, ← hm k]
      split_ifs with hk
      · rw [hk, hfiled.getSlot hslot, hslot]
      · rfl
  | unarchiveSlot key =>
    have hother : ((unarchiveSlot key).effect f |>.act {} f).Shows ((unarchiveSlot key).onMap m) ↔
        (f.coldCopy key).or (f.slots.lookup key) = f.getSlot key false := by
      constructor
      · intro hshows
        have hkey := hshows key
        rwa [effect, FSM.getSlot_unarchive, if_pos rfl, onMap, ← hm key] at hkey
      · intro hkey k
        rw [effect, FSM.getSlot_unarchive, onMap, ← hm k]
        split_ifs with hk
        · rw [hk, hkey]
        · rfl
    rw [hother, FSM.coldCopy_or_hot_iff]
    rfl

/-- **Cold spilling is invisible** in a session of slot operations on a leader with a working cold
store, after every number of operations, exactly if no `UnarchiveSlot` finds a stale copy. -/
theorem shows_plain_iff (n : Node) (m : Finmap fun _ : ℤ => SlotData) (ops : List SlotOp)
    (env : ℕ → Env) (hfiled : n.fsm.Filed) (hcold : n.fsm.coldStore.isSome = true)
    (hm : n.fsm.Shows m) (hkeys : ∀ op ∈ ops, InRange op.key) (henv : ∀ i, (env i).Faultless) :
    (∀ done, done <+: ops →
      (run (handle 0) (forEach done call) env n).1.fsm.Shows (done.foldl onMap m)) ↔
    Each (handle 0) (fun op _ n' => op.FindsNoStaleCopy n'.fsm) call ops env n := by
  refine forEach_simulates_iff
    (J := fun (env : ℕ → Env) (n : Node) =>
      (∀ i, (env i).Faultless) ∧ n.fsm.Filed ∧ n.fsm.coldStore.isSome = true)
    (R := fun m (n : Node) => n.fsm.Shows m) ?_ ?_ ⟨henv, hfiled, hcold⟩ hm
  · rintro op env n ⟨henv, hfiled, hcold⟩
    refine ⟨fun i => ?_, ?_, ?_⟩
    · obtain ⟨j, hj⟩ := run_env op.call env n i
      rw [hj]
      exact henv j
    · exact Store.run_invariant (fun f faults cmd h => h.apply faults cmd) 0 op.call env hfiled
    · refine Store.run_invariant (I := fun f => f.coldStore.isSome = true)
        (fun f faults cmd h => ?_) 0 op.call env hcold
      rw [FSM.isSome_coldStore_apply]
      exact h
  · rintro op hop env n m ⟨henv, hfiled, hcold⟩ hm
    have hrun := wp_run (wp_call op (hkeys op hop) hcold) henv
    rw [hrun]
    exact shows_act_iff op hfiled hcold hm

/-- An empty node with a cold store. -/
def emptyNode : Node where
  fsm := newFSMWithColdStore ∅
  queue := newPersistentSlotQueue 0

/-- A slot that is archived, read and brought back. -/
theorem shows_plain_archived_and_back :
    let ops := [createSlot ⟨1, 10, 19, ["a"]⟩, archiveSlot 1, unarchiveSlot 1]
    (run (handle 0) (forEach ops call) (fun _ => Env.calm 0) emptyNode).1.fsm.Shows
      (ops.foldl onMap ∅) := by
  intro ops
  refine (shows_plain_iff emptyNode ∅ ops (fun _ => Env.calm 0) FSM.filed_newFSMWithColdStore rfl
    (fun key => ?_) (by decide) fun _ => ⟨⟨rfl, rfl⟩, rfl⟩).mpr (by decide +kernel) ops
    List.prefix_rfl
  simp [emptyNode, newFSMWithColdStore, newFSM, FSM.getSlot_eq]

/-- **A lost slot**: a slot is written anew while its old copy is in the cold store, and bringing
the copy back loses what was written. -/
theorem unarchive_overwrites :
    let ops := [createSlot ⟨1, 10, 19, ["a"]⟩, archiveSlot 1, createSlot ⟨1, 10, 19, ["a", "b"]⟩,
      unarchiveSlot 1]
    (run (handle 0) (forEach ops call) (fun _ => Env.calm 0) emptyNode).1.fsm.getSlot 1 false
        = some ⟨1, 10, 19, ["a"]⟩ ∧
      (ops.foldl onMap ∅).lookup 1 = some ⟨1, 10, 19, ["a", "b"]⟩ := by
  decide +kernel

end SlotOp

end ScheduledDb
