import ScheduledDb.Store.Fsm

/-!
# Snapshots, and replicas that restore one

`GetSnapshot`, `Persist` and `Restore` (`raft_adapter.go`): a snapshot holds everything but the
contents of the cold store, which stay in the node's own file.

A replica that restores a snapshot therefore differs from one that replayed the log in one respect
only, the map its cold store holds (`restore_getSnapshot`, `withCold`).  `replicas_agree_iff` says
exactly when the difference can be seen, now or after any part of the rest of the log: a key whose
slot is cold must be in both stores alike, and the first unarchive command for a key must find the
same thing in both.
-/

namespace ScheduledDb

open Finmap Command

structure Snapshot where
  jobs : Finmap fun _ : String => Job
  slots : Finmap fun _ : ℤ => SlotData
  coldSlotMeta : Finset ℤ
  executionStates : Finmap fun _ : String => JobExecutionState
  memoryUsage : ℤ
  jobCount : ℤ

/-- Two state machines hold the same, whatever is in their cold stores. -/
structure FSM.HoldsSame (f g : FSM) : Prop where
  jobs : f.jobs = g.jobs
  slots : f.slots = g.slots
  coldSlotMeta : f.coldSlotMeta = g.coldSlotMeta
  executionStates : f.executionStates = g.executionStates
  memoryUsage : f.memoryUsage = g.memoryUsage
  jobCount : f.jobCount = g.jobCount

/-- A snapshot after `Persist` and decoding. -/
def Snapshot.wire (s : Snapshot) : Snapshot := { s with jobs := s.jobs.mapValues Job.wire }

namespace FSM

def getSnapshot (f : FSM) : Snapshot where
  jobs := f.jobs
  slots := f.slots
  coldSlotMeta := f.coldSlotMeta
  executionStates := f.executionStates
  memoryUsage := f.memoryUsage
  jobCount := f.jobCount

/-- `Restore`, of the bytes `Persist` writes for `s`.  The cold store stays what it was. -/
def restore (f : FSM) (s : Snapshot) : FSM where
  jobs := s.wire.jobs
  slots := s.wire.slots
  coldSlotMeta := s.wire.coldSlotMeta
  coldStore := f.coldStore
  executionStates := s.wire.executionStates
  memoryUsage := s.wire.memoryUsage
  jobCount := s.wire.jobCount

/-- Apply a log, with a cold store that never fails. -/
def replay (f : FSM) (log : List Command) : FSM := log.foldl (fun f cmd => (f.apply {} cmd).1) f

@[simp] lemma replay_nil (f : FSM) : f.replay [] = f := rfl

@[simp] lemma replay_cons (f : FSM) (cmd : Command) (log : List Command) :
    f.replay (cmd :: log) = (f.apply {} cmd).1.replay log := rfl

/-! ## Jobs in a replica are as the log delivers them -/

/-- Encoding the jobs changes nothing. -/
def Wired (f : FSM) : Prop := ∀ id job, f.jobs.lookup id = some job → job.wire = job

lemma wired_newFSM (c : Finmap fun _ : ℤ => SlotData) : (newFSMWithColdStore c).Wired := by
  intro id job hlook
  simp [newFSMWithColdStore, newFSM] at hlook

/-- Jobs come in only through the log. -/
lemma wired_apply {f : FSM} (h : f.Wired) (faults : ColdFaults) (cmd : Command) :
    (f.apply faults cmd).1.Wired := by
  rw [apply_fst]
  have heff := f.effectOf faults cmd.wire
  generalize f.effect faults cmd.wire = e at heff
  cases heff with
  | putJob _ harg =>
    obtain ⟨job', _, rfl⟩ := Option.map_eq_some_iff.mp harg
    intro id job hlook
    rw [Effect.act, lookup_insert_ite] at hlook
    split_ifs at hlook with hid
    · obtain rfl : job'.wire = job := by simpa using hlook
      exact job'.wire_wire
    · exact h id job hlook
  | dropJob _ _ =>
    intro id job hlook
    rw [Effect.act, lookup_erase_ite] at hlook
    split_ifs at hlook with hid
    exact h id job hlook
  | none => exact h
  | putSlot _ _ => exact h
  | dropSlot _ _ _ => exact h
  | archive _ _ _ => exact h
  | unarchive _ _ _ _ => exact h
  | putState _ => exact h
  | setMemoryUsage _ => exact h
  | setJobCount _ => exact h

lemma wired_replay (log : List Command) : ∀ {f : FSM}, f.Wired → (f.replay log).Wired := by
  induction log with
  | nil => exact fun h => h
  | cons cmd log ih => exact fun h => ih (wired_apply h {} cmd)

/-! ## Replicas that differ in the cold store only -/

/-- The same state over another cold store. -/
def withCold (f : FSM) (d : Finmap fun _ : ℤ => SlotData) : FSM := { f with coldStore := some d }

/-- **Restoring** a snapshot of a replica gives the replica over the restoring node's own cold
store. -/
lemma restore_getSnapshot {f : FSM} (h : f.Wired) (g : FSM) (d : Finmap fun _ : ℤ => SlotData) :
    (g.withCold d).restore f.getSnapshot = f.withCold d := by
  have hjobs : f.jobs.mapValues Job.wire = f.jobs := mapValues_eq_self h
  simp [restore, getSnapshot, Snapshot.wire, withCold, hjobs]

/-- What the read functions of two replicas show is the same. -/
structure Agree (f g : FSM) : Prop where
  getJob : ∀ id, f.getJob id = g.getJob id
  getSlot : ∀ key, f.getSlot key false = g.getSlot key false
  getAllSlots : f.slots = g.slots
  isSlotCold : ∀ key, f.isSlotCold key = g.isSlotCold key
  getExecutionState : ∀ id, f.getExecutionState id = g.getExecutionState id
  memoryUsage : f.memoryUsage = g.memoryUsage
  jobCount : f.jobCount = g.jobCount

/-- The slots one reads from the cold store are in both stores alike. -/
def ColdReadsAgree (f : FSM) (c d : Finmap fun _ : ℤ => SlotData) : Prop :=
  ∀ key ∈ f.coldSlotMeta, f.slots.lookup key = none → d.lookup key = c.lookup key

lemma agree_withCold_iff {f : FSM} {c : Finmap fun _ : ℤ => SlotData} (hc : f.coldStore = some c)
    (d : Finmap fun _ : ℤ => SlotData) : Agree f (f.withCold d) ↔ ColdReadsAgree f c d := by
  constructor
  · intro h key hkey hhot
    have hread := h.getSlot key
    simpa [FSM.getSlot_eq, coldCopy, withCold, hhot, hkey, hc] using hread.symm
  · intro h
    refine ⟨fun _ => rfl, fun key => ?_, rfl, fun _ => rfl, fun _ => rfl, rfl, rfl⟩
    cases hhot : f.slots.lookup key with
    | some slot => simp [FSM.getSlot_eq, withCold, hhot]
    | none =>
      by_cases hkey : key ∈ f.coldSlotMeta
      · simp [FSM.getSlot_eq, coldCopy, withCold, hhot, hkey, hc, h key hkey hhot]
      · simp [FSM.getSlot_eq, withCold, hhot, hkey]

end FSM

/-! ## One command on both replicas -/

/-- The key a command moves in or out of the cold store. -/
def Command.coldTarget (cmd : Command) : Option ℤ :=
  match cmd.type with
  | .archiveSlot => cmd.coldSlot.map SlotData.key
  | .deleteSlot | .unarchiveSlot => if cmd.id = "" then none else scanKey cmd.id
  | _ => none

namespace Effect

variable {e : Effect} {f : FSM} {c d : Finmap fun _ : ℤ => SlotData} {key : ℤ}

/-- The contents of a cold store after an effect. -/
def actCold (c : Finmap fun _ : ℤ => SlotData) : Effect → Finmap fun _ : ℤ => SlotData
  | dropSlot key => c.erase key
  | archive slot => c.insert slot.key slot
  | unarchive key => c.erase key
  | _ => c

lemma act_coldStore (hc : f.coldStore = some c) (e : Effect) :
    (e.act {} f).coldStore = some (e.actCold c) := by
  cases e <;> simp [act, actCold, hc, FSM.deleteColdSlot]

lemma lookup_actCold_of_ne (h : e.coldKey ≠ some key) :
    (e.actCold c).lookup key = c.lookup key := by
  cases e with
  | dropSlot key' =>
    have hne : key ≠ key' := by simpa [coldKey, eq_comm] using h
    rw [actCold, lookup_erase_ite, if_neg hne]
  | archive slot =>
    have hne : key ≠ slot.key := by simpa [coldKey, eq_comm] using h
    rw [actCold, lookup_insert_ite, if_neg hne]
  | unarchive key' =>
    have hne : key ≠ key' := by simpa [coldKey, eq_comm] using h
    rw [actCold, lookup_erase_ite, if_neg hne]
  | _ => rfl

/-- What an effect leaves at its own key does not depend on what was there. -/
lemma lookup_actCold_of_eq (h : e.coldKey = some key) :
    (e.actCold d).lookup key = (e.actCold c).lookup key := by
  cases e with
  | dropSlot key' =>
    obtain rfl : key' = key := by simpa [coldKey] using h
    rw [actCold, actCold, lookup_erase, lookup_erase]
  | archive slot =>
    obtain rfl : slot.key = key := by simpa [coldKey] using h
    rw [actCold, actCold, lookup_insert, lookup_insert]
  | unarchive key' =>
    obtain rfl : key' = key := by simpa [coldKey] using h
    rw [actCold, actCold, lookup_erase, lookup_erase]
  | _ => simp [coldKey] at h

lemma mem_coldSlotMeta_of_ne (h : e.coldKey ≠ some key) :
    key ∈ (e.act {} f).coldSlotMeta ↔ key ∈ f.coldSlotMeta := by
  cases e with
  | dropSlot key' =>
    have hne : key ≠ key' := by simpa [coldKey, eq_comm] using h
    simp [act, hne]
  | archive slot =>
    have hne : key ≠ slot.key := by simpa [coldKey, eq_comm] using h
    simp [act, hne]
  | unarchive key' =>
    have hne : key ≠ key' := by simpa [coldKey, eq_comm] using h
    simp [act, hne]
  | _ => rfl

/-- The slots after a slot has been unarchived. -/
lemma lookup_slots_unarchive (hc : f.coldStore = some c) (key' : ℤ) :
    ((unarchive key).act {} f).slots.lookup key'
      = if key' = key then (c.lookup key).or (f.slots.lookup key) else f.slots.lookup key' := by
  cases hlook : c.lookup key with
  | none =>
    simp only [act, hc, Option.bind_some, hlook, Option.none_or]
    split_ifs with h
    · rw [h]
    · rfl
  | some slot =>
    simp only [act, hc, Option.bind_some, hlook, Option.some_or]
    exact lookup_insert_ite _ _ _ _

/-- Without a cold-store command for it a hot slot stays hot. -/
lemma lookup_slots_of_none (hc : f.coldStore = some c) (h : e.coldKey ≠ some key)
    (hnone : (e.act {} f).slots.lookup key = .none) : f.slots.lookup key = .none := by
  cases e with
  | putSlot slot =>
    rw [act, lookup_insert_ite] at hnone
    split_ifs at hnone
    exact hnone
  | dropSlot key' =>
    have hne : key ≠ key' := by simpa [coldKey, eq_comm] using h
    rwa [act, lookup_erase_ite, if_neg hne] at hnone
  | archive slot =>
    have hne : key ≠ slot.key := by simpa [coldKey, eq_comm] using h
    rwa [act, lookup_erase_ite, if_neg hne] at hnone
  | unarchive key' =>
    have hne : key ≠ key' := by simpa [coldKey, eq_comm] using h
    rwa [lookup_slots_unarchive hc, if_neg hne] at hnone
  | _ => exact hnone

/-- **An effect on both replicas** leaves them alike up to the cold store, if it finds the same
thing in both. -/
lemma act_withCold (hc : f.coldStore = some c) (hsame : ∀ key, e = .unarchive key →
      (d.lookup key).or (f.slots.lookup key) = (c.lookup key).or (f.slots.lookup key)) :
    e.act {} (f.withCold d) = (e.act {} f).withCold (e.actCold d) := by
  cases e with
  | unarchive key =>
    have hslots : ((unarchive key).act {} (f.withCold d)).slots
        = ((unarchive key).act {} f).slots := by
      refine ext_lookup fun key' => ?_
      rw [lookup_slots_unarchive hc, lookup_slots_unarchive (c := d) rfl]
      split_ifs
      · exact hsame key rfl
      · rfl
    have hrest : (unarchive key).act {} (f.withCold d) =
        { (unarchive key).act {} f with
          slots := ((unarchive key).act {} (f.withCold d)).slots
          coldStore := some (d.erase key) } := rfl
    rw [hrest, hslots]
    rfl
  | _ => rfl

end Effect

namespace FSM

variable {f : FSM} {c d : Finmap fun _ : ℤ => SlotData} {cmd : Command}

lemma effect_withCold (hc : f.coldStore = some c) (cmd : Command) :
    (f.withCold d).effect {} cmd = f.effect {} cmd := by
  have hstatus : (f.withCold d).statusEffect = f.statusEffect := rfl
  have hattempts : (f.withCold d).attemptsEffect = f.attemptsEffect := rfl
  have hcold : (f.withCold d).coldStore.isSome = f.coldStore.isSome := by rw [hc]; rfl
  simp only [effect, hstatus, hattempts, hcold]
  rfl

lemma coldKey_statusEffect (f : FSM) (sc : StatusCommand) : (f.statusEffect sc).coldKey = none := by
  unfold statusEffect
  split <;> split_ifs <;> rfl

lemma coldKey_attemptsEffect (f : FSM) (sc : StatusCommand)
    (attempts : JobExecutionState → Option (List ExecutionAttempt)) :
    (f.attemptsEffect sc attempts).coldKey = none := by
  unfold attemptsEffect
  split
  · rfl
  · split <;> rfl

lemma coldKey_keyEffect {effect : ℤ → Effect} (h : ∀ key, (effect key).coldKey = some key)
    (id : String) : (keyEffect id effect).coldKey = if id = "" then none else scanKey id := by
  unfold keyEffect
  split_ifs
  · rfl
  · cases scanKey id with
    | none => rfl
    | some key => exact h key

lemma coldKey_effect (hc : f.coldStore = some c) (cmd : Command) :
    (f.effect {} cmd.wire).coldKey = cmd.coldTarget := by
  cases htype : cmd.type with
  | deleteSlot =>
    simp only [effect, wire, coldTarget, htype]
    exact coldKey_keyEffect (fun _ => rfl) cmd.id
  | unarchiveSlot =>
    simp only [effect, wire, coldTarget, htype, hc, Option.isSome_some, true_and,
      if_true]
    exact coldKey_keyEffect (fun _ => rfl) cmd.id
  | archiveSlot =>
    cases hslot : cmd.coldSlot with
    | none => simp [effect, wire, coldTarget, htype, hslot, Effect.coldKey]
    | some slot => simp [effect, wire, coldTarget, htype, hslot, hc,
        Effect.coldKey]
  | createJob =>
    cases hjob : cmd.job <;>
      simp [effect, wire, coldTarget, htype, hjob, Effect.coldKey]
  | deleteJob =>
    simp only [effect, wire, coldTarget, htype]
    split_ifs <;> rfl
  | createSlot =>
    cases hslot : cmd.slot <;>
      simp [effect, wire, coldTarget, htype, hslot, Effect.coldKey]
  | updateJobStatus =>
    cases hcmd : cmd.statusCommand with
    | none => simp [effect, wire, coldTarget, htype, hcmd, Effect.coldKey]
    | some sc => simp [effect, wire, coldTarget, htype, hcmd,
        coldKey_statusEffect]
  | recordAttempt | pruneAttempts =>
    cases hcmd : cmd.statusCommand with
    | none => simp [effect, wire, coldTarget, htype, hcmd, Effect.coldKey]
    | some sc => simp [effect, wire, coldTarget, htype, hcmd,
        coldKey_attemptsEffect]
  | updateMemoryUsage | updateJobCount => simp [effect, wire, coldTarget, htype, Effect.coldKey]
  | other text => simp [effect, wire, coldTarget, htype, Effect.coldKey]

/-! ## The rest of the log -/

/-- The first command that moves a key in or out of the cold store, if it unarchives the slot,
finds the same in both stores, or nothing that the slot in memory does not stand in for. -/
def UnarchivesAgree (f : FSM) (c d : Finmap fun _ : ℤ => SlotData) (log : List Command) : Prop :=
  ∀ (key : ℤ) (before : List Command) (cmd : Command) (after : List Command),
    log = before ++ cmd :: after → cmd.type = .unarchiveSlot → cmd.coldTarget = some key →
    (∀ x ∈ before, x.coldTarget ≠ some key) →
    (d.lookup key).or ((f.replay before).slots.lookup key)
      = (c.lookup key).or ((f.replay before).slots.lookup key)

/-- The unarchive effect is that of an unarchive command. -/
lemma type_of_unarchive {key : ℤ} (h : f.effect {} cmd.wire = .unarchive key) :
    cmd.type = .unarchiveSlot := by
  have heff := f.effectOf {} cmd.wire
  rw [h] at heff
  cases heff with
  | unarchive type _ _ _ => exact type

lemma effect_of_unarchive {key : ℤ} (hc : f.coldStore = some c) (htype : cmd.type = .unarchiveSlot)
    (htarget : cmd.coldTarget = some key) : f.effect {} cmd.wire = .unarchive key := by
  have hkey := coldKey_effect hc cmd
  rw [htarget] at hkey
  have heff := f.effectOf {} cmd.wire
  generalize f.effect {} cmd.wire = e at heff hkey
  cases heff with
  | unarchive _ _ _ _ => exact congrArg Effect.unarchive (by simpa [Effect.coldKey] using hkey)
  | dropSlot type _ _ | archive type _ _ => exact absurd (htype.symm.trans type) (by simp)
  | none | putJob _ _ | dropJob _ _ | putSlot _ _ | putState _ => simp [Effect.coldKey] at hkey
  | setMemoryUsage _ | setJobCount _ => simp [Effect.coldKey] at hkey

/-- What the first command of a log contributes to `UnarchivesAgree`. -/
lemma unarchivesAgree_cons (hc : f.coldStore = some c) (cmd : Command) (log : List Command) :
    UnarchivesAgree f c d (cmd :: log) ↔
      (∀ key, f.effect {} cmd.wire = .unarchive key →
        (d.lookup key).or (f.slots.lookup key) = (c.lookup key).or (f.slots.lookup key)) ∧
      UnarchivesAgree (f.apply {} cmd).1 ((f.effect {} cmd.wire).actCold c)
        ((f.effect {} cmd.wire).actCold d) log := by
  have hkey := coldKey_effect hc cmd
  constructor
  · intro h
    refine ⟨fun key heff => ?_, ?_⟩
    · have htarget : cmd.coldTarget = some key := by rw [← hkey, heff]; rfl
      exact h key [] cmd log rfl (type_of_unarchive heff) htarget (by simp)
    · rintro key before x after rfl htype htarget hbefore
      by_cases hcmd : cmd.coldTarget = some key
      · rw [Effect.lookup_actCold_of_eq (hkey.trans hcmd)]
      · rw [← hkey] at hcmd
        rw [Effect.lookup_actCold_of_ne hcmd, Effect.lookup_actCold_of_ne hcmd]
        refine h key (cmd :: before) x after rfl htype htarget ?_
        intro y hy
        rcases List.mem_cons.mp hy with rfl | hy
        · rwa [← hkey]
        · exact hbefore y hy
  · rintro ⟨hfirst, hrest⟩ key before x after hsplit htype htarget hbefore
    cases before with
    | nil =>
      obtain ⟨rfl, rfl⟩ := List.cons.inj hsplit
      exact hfirst key (effect_of_unarchive hc htype htarget)
    | cons y before =>
      obtain ⟨rfl, hlog⟩ := List.cons.inj hsplit
      have hcmd : (f.effect {} cmd.wire).coldKey ≠ some key := by
        rw [hkey]
        exact hbefore cmd List.mem_cons_self
      have h := hrest key before x after hlog htype htarget fun z hz =>
        hbefore z (List.mem_cons_of_mem cmd hz)
      rwa [Effect.lookup_actCold_of_ne hcmd, Effect.lookup_actCold_of_ne hcmd] at h

/-- Reads that agree before a command agree after it. -/
lemma coldReadsAgree_apply (hc : f.coldStore = some c) (h : ColdReadsAgree f c d) (cmd : Command) :
    ColdReadsAgree (f.apply {} cmd).1 ((f.effect {} cmd.wire).actCold c)
      ((f.effect {} cmd.wire).actCold d) := by
  intro key hmeta hnone
  rw [apply_fst] at hmeta hnone
  by_cases hkey : (f.effect {} cmd.wire).coldKey = some key
  · exact Effect.lookup_actCold_of_eq hkey
  · rw [Effect.lookup_actCold_of_ne hkey, Effect.lookup_actCold_of_ne hkey]
    exact h key ((Effect.mem_coldSlotMeta_of_ne hkey).mp hmeta)
      (Effect.lookup_slots_of_none hc hkey hnone)

/-- **When two replicas that differ in the cold store agree all along a log.** -/
theorem agree_along_iff (log : List Command) : ∀ (f : FSM) (c d : Finmap fun _ : ℤ => SlotData),
    f.coldStore = some c →
    ((∀ p, p <+: log → Agree (f.replay p) ((f.withCold d).replay p))
      ↔ ColdReadsAgree f c d ∧ UnarchivesAgree f c d log) := by
  induction log with
  | nil =>
    intro f c d hc
    have hnone : UnarchivesAgree f c d [] := by
      intro key before cmd after hsplit
      simp at hsplit
    simp [List.prefix_nil, agree_withCold_iff hc, hnone]
  | cons cmd log ih =>
    intro f c d hc
    -- the empty prefix is the state before the command, the others go on after it
    have hsplit : (∀ p, p <+: cmd :: log → Agree (f.replay p) ((f.withCold d).replay p)) ↔
        ColdReadsAgree f c d ∧ ∀ p, p <+: log →
          Agree ((f.apply {} cmd).1.replay p) (((f.withCold d).apply {} cmd).1.replay p) := by
      constructor
      · intro h
        refine ⟨(agree_withCold_iff hc d).mp (h [] (List.nil_prefix)), fun p hp => ?_⟩
        exact h (cmd :: p) (List.cons_prefix_cons.mpr ⟨rfl, hp⟩)
      · rintro ⟨h0, h1⟩ p hp
        cases p with
        | nil => exact (agree_withCold_iff hc d).mpr h0
        | cons x p =>
          obtain ⟨rfl, hp'⟩ := List.cons_prefix_cons.mp hp
          exact h1 p hp'
    rw [hsplit, unarchivesAgree_cons hc]
    refine and_congr_right fun hreads => ?_
    have hc' : (f.apply {} cmd).1.coldStore = some ((f.effect {} cmd.wire).actCold c) := by
      rw [apply_fst]
      exact Effect.act_coldStore hc _
    by_cases hsame : ∀ key, f.effect {} cmd.wire = .unarchive key →
        (d.lookup key).or (f.slots.lookup key) = (c.lookup key).or (f.slots.lookup key)
    · have hg : ((f.withCold d).apply {} cmd).1
          = (f.apply {} cmd).1.withCold ((f.effect {} cmd.wire).actCold d) := by
        rw [apply_fst, apply_fst, effect_withCold hc, Effect.act_withCold hc hsame]
      rw [hg, ih _ _ _ hc']
      constructor
      · rintro ⟨_, h⟩
        exact ⟨hsame, h⟩
      · rintro ⟨_, h⟩
        exact ⟨coldReadsAgree_apply hc hreads cmd, h⟩
    · -- the command unarchives different things: the slots in memory differ at once
      refine iff_of_false (fun h => hsame fun key heff => ?_) (fun h => hsame h.1)
      have hslots := (h [] List.nil_prefix).getAllSlots
      simp only [replay_nil, apply_fst, effect_withCold hc, heff] at hslots
      have hlook := congrArg (lookup key) hslots
      rw [Effect.lookup_slots_unarchive hc, Effect.lookup_slots_unarchive (c := d) rfl, if_pos rfl,
        if_pos rfl] at hlook
      exact hlook.symm

/-- What the node's cold store holds. -/
def coldContents (f : FSM) : Finmap fun _ : ℤ => SlotData := f.coldStore.getD ∅

lemma coldStore_replay (log : List Command) : ∀ {f : FSM}, f.coldStore.isSome →
    (f.replay log).coldStore = some (f.replay log).coldContents := by
  induction log with
  | nil =>
    intro f hcold
    obtain ⟨c, hc⟩ := Option.isSome_iff_exists.mp hcold
    simp [coldContents, hc]
  | cons cmd log ih =>
    intro f hcold
    obtain ⟨c, hc⟩ := Option.isSome_iff_exists.mp hcold
    rw [replay_cons]
    refine ih ?_
    rw [apply_fst, Effect.act_coldStore hc]
    rfl

/-- **Replaying against restoring.**  Replica A applies `pre` from the empty state with a cold store
of its own; replica B, over a cold store that holds `d`, restores the snapshot A then gives; both go
on with `suf`.  They agree after every part of `suf` exactly if every slot that is cold at the
snapshot is in `d` as in A's store, and the first cold-store command of `suf` for any key, if it is
an unarchive, finds the same in both stores. -/
theorem replicas_agree_iff (pre suf : List Command) (b : FSM) (d : Finmap fun _ : ℤ => SlotData) :
    (∀ p, p <+: suf → Agree ((newFSMWithColdStore ∅).replay (pre ++ p))
      (((b.withCold d).restore ((newFSMWithColdStore ∅).replay pre).getSnapshot).replay p)) ↔
    ColdReadsAgree ((newFSMWithColdStore ∅).replay pre)
        ((newFSMWithColdStore ∅).replay pre).coldContents d ∧
      UnarchivesAgree ((newFSMWithColdStore ∅).replay pre)
        ((newFSMWithColdStore ∅).replay pre).coldContents d suf := by
  have hc := coldStore_replay pre (f := newFSMWithColdStore ∅) rfl
  rw [restore_getSnapshot (wired_replay pre (wired_newFSM ∅)), ← agree_along_iff suf _ _ d hc]
  simp only [replay, List.foldl_append]

/-- A follower that installs a snapshot does not have the cold slots of the node that took it; and
a node that restarts unarchives, while it replays, a slot that it archived later. -/
theorem replicas_disagree :
    let slot : SlotData := ⟨5, 50, 59, ["a"]⟩
    let archive : Command := { type := .archiveSlot, coldSlot := some slot }
    let unarchive : Command := { type := .unarchiveSlot, id := "5" }
    (((newFSMWithColdStore ∅).replay [archive]).getSlot 5 false = some slot ∧
      ((newFSM.withCold ∅).restore
        ((newFSMWithColdStore ∅).replay [archive]).getSnapshot).getSlot 5 false = none) ∧
    (((newFSMWithColdStore ∅).replay [unarchive]).getSlot 5 false = none ∧
      (((newFSM.withCold ((newFSMWithColdStore ∅).replay [unarchive, archive]).coldContents).restore
        ((newFSMWithColdStore ∅).replay []).getSnapshot).replay [unarchive]).getSlot 5 false
          = some slot) := by
  decide

end FSM

end ScheduledDb
