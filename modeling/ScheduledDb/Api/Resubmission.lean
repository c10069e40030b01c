import ScheduledDb.Api.Accounting

/-!
# Sending a create request twice

The API reference recommends ids of the client's own choice to those who need idempotency.  Of the
five things a create request touches, the job and its execution state are overwritten and the index
is set to the same slot again; but the slot gets the id a second time, and both counters go up a
second time.  So a second request is without effect only if it is refused: `resubmit_iff`.
-/

namespace ScheduledDb

open Machine Program PersistentSlotQueue

/-! ## The same but for the time of creation -/

/-- What a slot holds, in any order. -/
def SlotData.contents (slot : SlotData) : ℤ × ℤ × ℤ × Multiset String :=
  (slot.key, slot.minTime, slot.maxTime, slot.jobIDs)

/-- Two nodes have the same jobs, slots, execution states, counters and index; the order of the jobs
in a slot and the times of creation aside. -/
structure Node.Resembles (n n' : Node) : Prop where
  jobs : ∀ id, (n.fsm.jobs.lookup id).map (fun job => { job with createdAt := 0 })
    = (n'.fsm.jobs.lookup id).map fun job => { job with createdAt := 0 }
  slots : ∀ key, (n.fsm.slots.lookup key).map SlotData.contents
    = (n'.fsm.slots.lookup key).map SlotData.contents
  executionStates : ∀ id,
    (n.fsm.executionStates.lookup id).map (fun state => { state with createdAt := 0 })
      = (n'.fsm.executionStates.lookup id).map fun state => { state with createdAt := 0 }
  memoryUsage : n.fsm.memoryUsage = n'.fsm.memoryUsage
  jobCount : n.fsm.jobCount = n'.fsm.jobCount
  jobToSlot : n.queue.jobToSlot = n'.queue.jobToSlot

lemma Node.Resembles.refl (n : Node) : n.Resembles n :=
  ⟨fun _ => rfl, fun _ => rfl, fun _ => rfl, rfl, rfl, rfl⟩

/-! ## Which requests are refused -/

/-- `Job.Validate` accepts the job at this time. -/
def Job.ValidAt (p : Parsers) (job : Job) (now : ℤ) : Prop :=
  job.id ≠ "" ∧
    match job.type with
    | .unico => ∃ timestamp ∈ job.timestamp, now < timestamp
    | .recurrente => job.cronExpr ≠ "" ∧ p.parseCron job.cronExpr = none
    | .other _ => False

/-- There is no room for the job. -/
def LimitManager.Full (lm : LimitManager) (job : Job) (memoryUsage jobCount : ℤ) : Prop :=
  lm.memoryTracker.memoryLimit < wrap64 (memoryUsage + lm.size job) ∨ lm.jobCounter.limit ≤ jobCount

instance (lm : LimitManager) (job : Job) (memoryUsage jobCount : ℤ) :
    Decidable (lm.Full job memoryUsage jobCount) :=
  inferInstanceAs (Decidable (_ ∨ _))

variable {job' job : Job} {now : ℤ} {p : Parsers}

lemma Job.Again.validAt_iff (h : job.Again job') (p : Parsers) (now : ℤ) :
    job'.ValidAt p now ↔ job.ValidAt p now := by
  obtain ⟨createdAt, rfl⟩ := h
  rfl

/-- Two readings of one request differ in the time of creation; with a timestamp the job is due at it
both times. -/
lemma CreateJobRequest.build_again {req : CreateJobRequest} {id : String} (hts : req.timestamp ≠ "")
    (h : req.build p id now = .ok job) (now' : ℤ) :
    ∃ job', req.build p id now' = .ok job' ∧ job.Again job' ∧ job'.dueTime = job.dueTime := by
  unfold build at h ⊢
  cases htype : req.type with
  | other text =>
    simp only [htype, Except.ok.injEq] at h ⊢
    subst h
    exact ⟨_, rfl, ⟨now', rfl⟩, rfl⟩
  | unico =>
    simp only [htype] at h ⊢
    cases hfield : parseField p "timestamp" req.timestamp with
    | error err => simp [hfield] at h
    | ok timestamp =>
      simp only [hfield, Except.ok.injEq] at h ⊢
      subst h
      exact ⟨_, rfl, ⟨now', rfl⟩, rfl⟩
  | recurrente =>
    simp only [htype] at h ⊢
    cases hfield : parseField p "timestamp" req.timestamp with
    | error err => simp [hfield] at h
    | ok timestamp =>
      cases hlast : parseField p "last_date" req.lastDate with
      | error err => simp [hfield, hlast] at h
      | ok lastDate =>
        -- the field is set, so that the time of creation is not the clock's
        obtain ⟨epoch, rfl⟩ : ∃ epoch, timestamp = some epoch := by
          simp only [parseField, if_neg hts] at hfield
          split at hfield <;> simp at hfield
          exact ⟨_, hfield.symm⟩
        simp only [hfield, hlast, Except.ok.injEq] at h ⊢
        subst h
        exact ⟨_, rfl, ⟨epoch, rfl⟩, rfl⟩

lemma Job.ValidAt.dueTime (h : job.ValidAt p now) : ∃ timestamp, job.dueTime = some timestamp := by
  obtain ⟨-, h⟩ := h
  unfold Job.dueTime
  cases htype : job.type with
  | unico =>
    simp only [htype] at h
    obtain ⟨timestamp, htimestamp, -⟩ := h
    exact ⟨timestamp, htimestamp⟩
  | recurrente => exact ⟨_, rfl⟩
  | other text => simp [htype] at h

lemma run_validate (p : Parsers) (job : Job) (thread : ℕ) (env : ℕ → Env) (n : Node) :
    (run (handle thread) (job.validate p) env n).1 = n ∧
      ((run (handle thread) (job.validate p) env n).2.1 = none ↔ job.ValidAt p (env 0).now) := by
  unfold Job.validate Job.ValidAt
  by_cases hid : job.id = ""
  · simp [hid]
  · simp only [if_neg hid]
    cases job.type with
    | other text => simp
    | unico =>
      cases job.timestamp with
      | none => simp
      | some timestamp =>
        by_cases hpast : timestamp ≤ (env 0).now
        · simp [handle, hid, hpast]
        · simp [handle, hid, hpast, lt_of_not_ge hpast]
    | recurrente =>
      by_cases hcron : job.cronExpr = ""
      · simp [hcron]
      · cases hparse : p.parseCron job.cronExpr <;> simp [hid, hcron]

namespace Handlers

variable {h : Handlers} {thread : ℕ} {n : Node} {job : Job} {env : ℕ → Env}

/-- The limits, if there are any, leave no room for the job. -/
def Refuses (h : Handlers) (job : Job) (memoryUsage jobCount : ℤ) : Prop :=
  ∃ lm ∈ h.limitManager, lm.Full job memoryUsage jobCount

lemma run_checkCapacity (h : Handlers) (job : Job) (thread : ℕ) (env : ℕ → Env) (n : Node) :
    (run (handle thread) (h.checkCapacity job) env n).1 = n ∧
      ((run (handle thread) (h.checkCapacity job) env n).2.1 = none ↔
        ¬ h.Refuses job n.fsm.memoryUsage n.fsm.jobCount) := by
  unfold checkCapacity Refuses
  cases h.limitManager with
  | none => simp
  | some lm =>
    simp only [LimitManager.checkCapacity, MemoryTracker.checkCapacity, MemoryTracker.getUsage,
      JobCounter.checkCapacity, perform_bind, step_bind, done_bind, pure_eq, run_step, handle]
    by_cases hmemory : wrap64 (n.fsm.memoryUsage + lm.size job) > lm.memoryTracker.memoryLimit
    · simp [hmemory, LimitManager.Full]
    · by_cases hcount : n.fsm.jobCount ≥ lm.jobCounter.limit
      · simp [hmemory, hcount, handle, LimitManager.Full]
      · simp [hmemory, hcount, handle, LimitManager.Full]

end Handlers

/-! ## What an accepted request does -/

namespace PersistentSlotQueue

variable {thread : ℕ} {n : Node}

lemma wp_ensureInit : wp (handle thread) Env.Stable ensureInit
    (fun _ n' => n'.fsm = n.fsm ∧ n'.queue.slotGap = n.queue.slotGap) n := by
  simp only [ensureInit, onWheel, perform_bind, wp_step, wp_ite]
  exact fun _ _ => ⟨fun _ => ⟨rfl, rfl⟩, fun _ _ _ _ _ => ⟨rfl, rfl⟩⟩

/-- The slot of the key has got one more entry, and the counters are as they were. -/
structure Entered (id : String) (key : ℤ) (f f' : FSM) : Prop where
  slot : ∃ slot : SlotData, (∀ old ∈ f.slots.lookup key, old = slot) ∧
    f'.slots.lookup key = some { slot with jobIDs := slot.jobIDs ++ [id] }
  memoryUsage : f'.memoryUsage = f.memoryUsage
  jobCount : f'.jobCount = f.jobCount

/-- `AddJob` appends the id, whether the slot lists it or not. -/
lemma wp_addJob (hfiled : n.fsm.Filed) {job : Job} {timestamp : ℤ}
    (hdue : job.dueTime = some timestamp) :
    wp (handle thread) Env.Stable (addJob job)
      (fun _ n' => n'.queue.slotGap = n.queue.slotGap ∧
        Entered job.id (timestamp.tdiv (seconds n.queue.slotGap)) n.fsm n'.fsm) n := by
  simp only [addJob, hdue, slotGapSeconds, perform_bind, wp_step]
  intro e0 _
  have hseconds : handle thread _ (.queue fun q => (q, seconds q.slotGap)) e0 n
      = (n, seconds n.queue.slotGap) := rfl
  rw [hseconds]
  refine wp_seq wp_ensureInit ?_
  rintro _ n1 ⟨hfsm, hgap⟩
  have hwrite : ∀ slotData : SlotData, wp (handle thread) Env.Stable
      (do Store.ifLeader (Store.createSlot slotData)
          onIndex fun m => (m.insert job.id (timestamp.tdiv (seconds n.queue.slotGap)), ())
          wheelAdd (timestamp.tdiv (seconds n.queue.slotGap)))
      (fun _ n' => n'.queue.slotGap = n.queue.slotGap ∧
        n'.fsm = { n.fsm with slots := n.fsm.slots.insert slotData.key slotData }) n1 := by
    intro slotData
    refine wp_bind.mpr (Store.wpWith_ifLeader (fun _ _ _ hg => hg)
      (Store.wpWith_propose (fun _ _ _ hg => hg) fun e _ => ?_))
    refine fun _ _ _ _ => ⟨hgap, ?_⟩
    show (n1.fsm.apply e.faults { type := .createSlot, slot := some slotData }).1 = _
    rw [FSM.effect_createSlot, hfsm]
    rfl
  refine wp_bind.mpr (Store.wp_getSlot fun e1 _ => ?_)
  rw [hfsm]
  refine wp_mono (hwrite _) ?_
  rintro _ n2 ⟨hgap2, hfsm2⟩
  refine ⟨hgap2, ?_, by rw [hfsm2], by rw [hfsm2]⟩
  cases hslot : n.fsm.getSlot (timestamp.tdiv (seconds n.queue.slotGap)) e1.faults.get.isSome with
  | none =>
    rw [hslot] at hfsm2
    refine ⟨{ newSlotData (timestamp.tdiv (seconds n.queue.slotGap)) (seconds n.queue.slotGap)
      job.id with jobIDs := [] }, ?_, ?_⟩
    · intro old hold
      simp [FSM.getSlot_eq, Option.mem_def.mp hold] at hslot
    · rw [hfsm2]
      exact Finmap.lookup_insert _
  | some slotData =>
    rw [hslot] at hfsm2
    refine ⟨slotData, ?_, ?_⟩
    · intro old hold
      simpa [FSM.getSlot_eq, Option.mem_def.mp hold] using hslot
    · rw [hfsm2, ← hfiled.getSlot hslot]
      exact Finmap.lookup_insert _

end PersistentSlotQueue

namespace Handlers

variable {h : Handlers} {thread : ℕ} {n : Node} {job : Job} {env : ℕ → Env}

/-- The slot of the key has got one more entry, and both counters have gone up. -/
structure Accepts (h : Handlers) (job : Job) (key : ℤ) (n n' : Node) : Prop where
  slotGap : n'.queue.slotGap = n.queue.slotGap
  slot : ∃ slot : SlotData, (∀ old ∈ n.fsm.slots.lookup key, old = slot) ∧
    n'.fsm.slots.lookup key = some { slot with jobIDs := slot.jobIDs ++ [job.id] }
  counters : ∀ lm ∈ h.limitManager,
    n'.fsm.memoryUsage = FSM.addClamped n.fsm.memoryUsage (lm.size job) ∧
      n'.fsm.jobCount = FSM.addClamped n.fsm.jobCount 1

lemma wp_store {timestamp : ℤ} (hfiled : n.fsm.Filed) (hdue : job.dueTime = some timestamp) :
    wp (handle thread) Env.Stable (h.store job)
      (fun _ n' => h.Accepts job (timestamp.tdiv (seconds n.queue.slotGap)) n n') n := by
  refine wp_bind.mpr (wp_bind.mpr (Store.wpWith_propose (fun _ _ _ hg => hg) fun e _ => ?_))
  refine wp_seq
    (wpWith_handler (fun _ _ _ hg => hg) (wp_addJob (hfiled.apply _ _) hdue)) ?_
  rintro _ n1 ⟨hgap, hentered⟩
  refine wp_bind.mpr ?_
  unfold countAdded
  cases hlm : h.limitManager with
  | none => exact ⟨hgap, hentered.slot, by simp [hlm]⟩
  | some lm =>
    refine wp_bind.mpr (wp_bind.mpr (Store.wpWith_propose (fun _ _ _ hg => hg) fun _ _ =>
      wp_bind.mpr (Store.wpWith_propose (fun _ _ _ hg => hg) fun _ _ => ?_)))
    refine ⟨hgap, hentered.slot, ?_⟩
    rintro lm' hlm'
    obtain rfl : lm = lm' := by simpa [hlm] using hlm'
    exact ⟨congrArg (FSM.addClamped · (lm.size job)) hentered.memoryUsage,
      congrArg (FSM.addClamped · 1) hentered.jobCount⟩

/-! ## Once and twice -/

/-- `CreateJob` of a request with an id: `IsLeader` and `ToJob` take a step each. -/
lemma run_createJob (henv : (env 0).Stable) {req : CreateJobRequest} (hid : req.id ≠ "")
    (hbuild : req.build h.parsers req.id (env 1).now = .ok job) :
    run (handle thread) (h.createJob (some req)) env n
      = run (handle thread) (h.createValid job) (fun i => env (i + 2)) n := by
  have hjob : ((run (handle thread) (req.toJob h.parsers) (fun i => env (i + 1)) n)
      = (n, .ok job, fun i => env (i + 2))) := by
    simp [CreateJobRequest.toJob, CreateJobRequest.chooseID, hid, handle, hbuild]
  have hleader : (handle thread _ .isLeader (env 0) n).2 = true := henv.1
  rw [createJob, perform_bind, run_step, hleader, if_pos rfl]
  show run (handle thread) (req.toJob h.parsers >>= _) (fun i => env (i + 1)) n = _
  rw [run_bind, hjob]

/-- A request that is invalid by now, or finds no room, changes nothing. -/
lemma run_createValid_refused (hrefused : ¬ job.ValidAt h.parsers (env 0).now ∨
      h.Refuses job n.fsm.memoryUsage n.fsm.jobCount) :
    (run (handle thread) (h.createValid job) env n).1 = n := by
  obtain ⟨hsame, hvalid⟩ := run_validate h.parsers job thread env n
  rw [createValid, run_bind, hsame]
  cases hanswer : (run (handle thread) (job.validate h.parsers) env n).2.1 with
  | some err => rfl
  | none =>
    have hfull := hrefused.resolve_left fun hno => hno (hvalid.mp hanswer)
    simp only
    rw [run_bind]
    obtain ⟨hsame', hroom⟩ := run_checkCapacity h job thread
      (run (handle thread) (job.validate h.parsers) env n).2.2 n
    rw [hsame']
    split
    next => rfl
    next hnone => exact absurd hfull (hroom.mp hnone)

lemma run_createValid_accepted {timestamp : ℤ} (henv : ∀ i, (env i).Stable) (hfiled : n.fsm.Filed)
    (hdue : job.dueTime = some timestamp) (hvalid : job.ValidAt h.parsers (env 0).now)
    (hroom : ¬ h.Refuses job n.fsm.memoryUsage n.fsm.jobCount) :
    h.Accepts job (timestamp.tdiv (seconds n.queue.slotGap)) n
      (run (handle thread) (h.createValid job) env n).1 := by
  obtain ⟨hsame, hanswer⟩ := run_validate h.parsers job thread env n
  obtain ⟨hsame', hanswer'⟩ := run_checkCapacity h job thread
    (run (handle thread) (job.validate h.parsers) env n).2.2 n
  rw [createValid, run_bind, hanswer.mpr hvalid, hsame]
  simp only
  rw [run_bind, hanswer'.mpr hroom, hsame']
  refine wp_run (wp_store hfiled hdue) fun i => ?_
  obtain ⟨j, hj⟩ := run_env (h.checkCapacity job)
    (run (handle thread) (job.validate h.parsers) env n).2.2 n i
  obtain ⟨k, hk⟩ := run_env (job.validate h.parsers) env n j
  rw [hj, hk]
  exact henv k

/-- Two entries for one are seen in the slot. -/
lemma Accepts.not_resembles {n' : Node} {job' : Job} {key : ℤ} {before : Node}
    (hfirst : h.Accepts job key before n) (hsecond : h.Accepts job' key n n') : ¬ n.Resembles n' := by
  intro hsame
  obtain ⟨slot, -, hslot⟩ := hfirst.slot
  obtain ⟨slot', hold, hslot'⟩ := hsecond.slot
  obtain rfl := hold _ hslot
  have hcontents := hsame.slots key
  rw [hslot, hslot'] at hcontents
  simp only [Option.map_some, Option.some.injEq, SlotData.contents, Prod.mk.injEq,
    Multiset.coe_eq_coe, true_and] at hcontents
  have hlength := hcontents.length_eq
  simp at hlength

/-- **Sending a valid request with an id and a timestamp a second time** changes nothing exactly if
one of the two is refused: there is no room for the job, or none left after it, or its time has come
when the second one is validated (`IsLeader`, `ToJob` and `Validate` take a step each). -/
theorem resubmit_iff (h : Handlers) (req : CreateJobRequest) (n : Node) (thread : ℕ)
    (env env' : ℕ → Env) (job : Job) (henv : ∀ i, (env i).Stable) (henv' : ∀ i, (env' i).Stable)
    (hfiled : n.fsm.Filed) (hid : req.id ≠ "") (hts : req.timestamp ≠ "")
    (hbuild : req.build h.parsers req.id (env 1).now = .ok job)
    (hvalid : job.ValidAt h.parsers (env 2).now) :
    let once := (run (handle thread) (h.createJob (some req)) env n).1
    let twice := (run (handle thread) (h.createJob (some req)) env' once).1
    once.Resembles twice ↔
      h.Refuses job n.fsm.memoryUsage n.fsm.jobCount ∨
        (∃ lm ∈ h.limitManager, lm.Full job (FSM.addClamped n.fsm.memoryUsage (lm.size job))
          (FSM.addClamped n.fsm.jobCount 1)) ∨
        ¬ job.ValidAt h.parsers (env' 2).now := by
  intro once twice
  obtain ⟨job', hbuild', hagain, hdue'⟩ := req.build_again hts hbuild (env' 1).now
  obtain ⟨timestamp, hdue⟩ := hvalid.dueTime
  have honce : once = (run (handle thread) (h.createValid job) (fun i => env (i + 2)) n).1 := by
    rw [← run_createJob (henv 0) hid hbuild]
  have htwice : twice
      = (run (handle thread) (h.createValid job') (fun i => env' (i + 2)) once).1 := by
    rw [← run_createJob (henv' 0) hid hbuild']
  have hrefuses : ∀ m c, h.Refuses job' m c ↔ h.Refuses job m c := fun m c =>
    exists_congr fun lm => and_congr_right fun _ => by
      rw [LimitManager.Full, LimitManager.Full, lm.size_again hagain]
  by_cases hfull : h.Refuses job n.fsm.memoryUsage n.fsm.jobCount
  · -- the first is refused, and then the second
    have hsame : once = n := honce.trans (run_createValid_refused (.inr hfull))
    have hsame' : twice = once := htwice.trans
      (run_createValid_refused (.inr ((hrefuses _ _).mpr (hsame ▸ hfull))))
    rw [hsame']
    exact iff_of_true (Node.Resembles.refl once) (.inl hfull)
  · have hfirst : h.Accepts job (timestamp.tdiv (seconds n.queue.slotGap)) n once := by
      rw [honce]
      exact run_createValid_accepted (fun i => henv (i + 2)) hfiled hdue hvalid hfull
    have hleft : h.Refuses job once.fsm.memoryUsage once.fsm.jobCount ↔
        ∃ lm ∈ h.limitManager, lm.Full job (FSM.addClamped n.fsm.memoryUsage (lm.size job))
          (FSM.addClamped n.fsm.jobCount 1) := by
      refine exists_congr fun lm => and_congr_right fun hlm => ?_
      rw [(hfirst.counters lm hlm).1, (hfirst.counters lm hlm).2]
    rw [or_iff_right hfull, ← hleft]
    by_cases hrefused : h.Refuses job once.fsm.memoryUsage once.fsm.jobCount ∨
        ¬ job.ValidAt h.parsers (env' 2).now
    · -- the second is refused
      have hsame : twice = once := by
        rw [htwice]
        refine run_createValid_refused (hrefused.symm.imp (fun hno hyes => hno ?_) (hrefuses _ _).mpr)
        exact (hagain.validAt_iff h.parsers _).mp hyes
      rw [hsame]
      exact iff_of_true (Node.Resembles.refl once) hrefused
    · -- both are accepted
      obtain ⟨hroom, hstill⟩ := not_or.mp hrefused
      have hsecond : h.Accepts job' (timestamp.tdiv (seconds n.queue.slotGap)) once twice := by
        rw [htwice, ← hfirst.slotGap]
        have honceFiled : once.fsm.Filed := Store.run_invariant
          (fun _ faults cmd hf => hf.apply faults cmd) thread _ env hfiled
        refine run_createValid_accepted (fun i => henv' (i + 2)) honceFiled (hdue'.trans hdue)
          ((hagain.validAt_iff h.parsers _).mpr (not_not.mp hstill)) fun hno => hroom ?_
        exact (hrefuses _ _).mp hno
      exact iff_of_false (hfirst.not_resembles hsecond) hrefused

/-- The second request comes too late. -/
theorem resubmit_too_late :
    let once := (run (handle 0) (smallHandlers.createJob (some (dueRequest none)))
      (fun _ => Env.calm 0) freshNode).1
    once.Resembles (run (handle 0) (smallHandlers.createJob (some (dueRequest none)))
      (fun _ => Env.calm 7) once).1 := by
  refine (resubmit_iff smallHandlers (dueRequest none) freshNode 0 (fun _ => Env.calm 0)
    (fun _ => Env.calm 7) { id := "a", type := .unico, timestamp := some 5 } (fun _ => ⟨rfl, rfl⟩)
    (fun _ => ⟨rfl, rfl⟩) FSM.filed_newFSM (by decide) (by decide) (by decide +kernel)
    ⟨by decide, 5, rfl, by decide⟩).mpr (.inr (.inr ?_))
  rintro ⟨-, timestamp, htimestamp, hlater⟩
  obtain rfl : 5 = timestamp := Option.some.inj htimestamp
  exact absurd hlater (by decide)

/-- The same request twice, at second 0: its slot lists the job twice, and it is counted twice. -/
theorem resubmit_doubles :
    let send := fun n => (run (handle 0) (smallHandlers.createJob (some (dueRequest none)))
      (fun _ => Env.calm 0) n).1
    let once := send freshNode
    let twice := send once
    (once.fsm.slots.lookup 0).map SlotData.jobIDs = some ["a"] ∧
      (twice.fsm.slots.lookup 0).map SlotData.jobIDs = some ["a", "a"] ∧
      (once.fsm.jobCount, once.fsm.memoryUsage) = (1, 193) ∧
      (twice.fsm.jobCount, twice.fsm.memoryUsage) = (2, 386) ∧
      twice.fsm.jobs.keys.card = 1 ∧ ¬ once.Resembles twice := by
  intro send once twice
  have hcount : once.fsm.jobCount = 1 := by decide +kernel
  have hcount' : twice.fsm.jobCount = 2 := by decide +kernel
  refine ⟨by decide +kernel, by decide +kernel, by decide +kernel, by decide +kernel,
    by decide +kernel, fun hsame => ?_⟩
  have := hsame.jobCount
  omega

end Handlers

end ScheduledDb
