import ScheduledDb.Core.Run
import Mathlib.Data.List.Basic

/-!
# Background loops and their stop channels

The worker and the slot evictor each run a loop in a goroutine of its own: `Start` starts it, `Stop`
closes a channel that the loop waits for.  A `LoopRunner` is what the two have in common: the flag,
the field `stopCh`, the channels made and closed so far, and how far each goroutine has got.

The two differ in one line.  The worker's `Start` makes a new channel; the evictor's uses the one
its constructor made.  So the evictor can be started and stopped once: a later `Start` finds the
channel closed, and the `Stop` after that closes it again (`evictor_orderly_iff`).  The worker can be
restarted, but a loop reads the field `stopCh` anew in every round: one that is busy during `Stop`
and the next `Start` finds the new channel and goes on (`one_loop_iff`).
-/

namespace ScheduledDb

open List

/-! ## The goroutines -/

/-- Where a goroutine is.  A `select` evaluates its channels once, when it is entered; a nil channel
is `none`. -/
inductive LoopPhase where
  /-- About to enter the `select`. -/
  | ready
  | selecting (stopCh : Option ℕ)
  /-- At work on a tick. -/
  | busy
  | exited
  deriving DecidableEq, Repr

/-- A step of a goroutine: it enters the `select`, takes the case of the stop channel or the case of
a ticker, or comes to the end of the round. -/
inductive LoopStep where
  | enter
  | stopped
  | tick
  | finish
  deriving DecidableEq, Repr

/-- What `Start` and `Stop` of the worker and of the evictor work with, and the goroutines they
started. -/
structure LoopRunner where
  running : Bool
  stopCh : Option ℕ
  /-- Channels made so far; they are numbered. -/
  made : ℕ
  closed : List ℕ
  loops : List LoopPhase
  /-- A nil or a closed channel was closed. -/
  panicked : Bool
  deriving DecidableEq, Repr

namespace LoopRunner

/-- `Stop` of the worker and of the evictor; a panic in `close` leaves the flag set. -/
def stop (r : LoopRunner) : LoopRunner :=
  if r.running = true then
    match r.stopCh with
    | none => { r with panicked := true }
    | some ch =>
      if ch ∈ r.closed then { r with panicked := true }
      else { r with closed := ch :: r.closed, running := false }
  else r

/-- A step that does not start where the goroutine is does nothing.  Between a closed channel and a
tick `select` may take either. -/
def next (r : LoopRunner) : LoopPhase → LoopStep → LoopPhase
  | .ready, .enter => .selecting r.stopCh
  | .selecting (some ch), .stopped => if ch ∈ r.closed then .exited else .selecting (some ch)
  | .selecting _, .tick => .busy
  | .busy, .finish => .ready
  | phase, _ => phase

/-- Goroutine `i` of `run` takes a step. -/
def loopStep (r : LoopRunner) (i : ℕ) (s : LoopStep) : LoopRunner :=
  { r with loops := r.loops.modify i fun phase => r.next phase s }

end LoopRunner

/-- `NewWorker` -/
def newWorkerLoop : LoopRunner := ⟨false, none, 0, [], [], false⟩

/-- `Worker.Start` -/
def startWorker (r : LoopRunner) : LoopRunner :=
  if r.running = true then r
  else
    { r with
      stopCh := some r.made
      made := r.made + 1
      running := true
      loops := r.loops ++ [.ready] }

/-- `NewSlotEvictorWithWheel` -/
def newEvictorLoop : LoopRunner := ⟨false, some 0, 1, [], [], false⟩

/-- `SlotEvictor.Start` -/
def startEvictor (r : LoopRunner) : LoopRunner :=
  if r.running = true then r
  else
    { r with
      running := true
      loops := r.loops ++ [.ready] }

namespace LoopRunner

variable {r : LoopRunner} {i j : ℕ} {s : LoopStep} {phase : LoopPhase}

/-- Nobody has closed the channel. -/
def Open (r : LoopRunner) (ch : Option ℕ) : Prop := ∀ n ∈ ch, n ∉ r.closed

/-- The goroutine does not end at its next `select` unless `Stop` is called. -/
def GoesOn (r : LoopRunner) : LoopPhase → Prop
  | .ready | .busy => r.Open r.stopCh
  | .selecting ch => r.Open ch
  | .exited => False

instance (r : LoopRunner) (ch : Option ℕ) : Decidable (r.Open ch) :=
  inferInstanceAs (Decidable (∀ n ∈ ch, n ∉ r.closed))

instance (r : LoopRunner) : ∀ phase, Decidable (r.GoesOn phase)
  | .ready => inferInstanceAs (Decidable (r.Open r.stopCh))
  | .busy => inferInstanceAs (Decidable (r.Open r.stopCh))
  | .selecting ch => inferInstanceAs (Decidable (r.Open ch))
  | .exited => isFalse id

/-- Goroutine `i` goes on. -/
def Lives (r : LoopRunner) (i : ℕ) : Prop := ∃ phase ∈ r.loops[i]?, r.GoesOn phase

lemma not_open_some {n : ℕ} : ¬ r.Open (some n) ↔ n ∈ r.closed := by simp [Open]

lemma loops_loopStep :
    (r.loopStep i s).loops[j]? = r.loops[j]?.map fun phase =>
      if i = j then r.next phase s else phase := by
  simp only [loopStep, getElem?_modify]
  cases r.loops[j]? <;> rfl

lemma goesOn_loopStep : (r.loopStep i s).GoesOn phase ↔ r.GoesOn phase := by cases phase <;> rfl

lemma lives_loopStep :
    (r.loopStep i s).Lives j ↔
      ∃ phase ∈ r.loops[j]?, r.GoesOn (if i = j then r.next phase s else phase) := by
  simp only [Lives, loops_loopStep, goesOn_loopStep, Option.mem_def, Option.map_eq_some_iff,
    exists_exists_and_eq_and]

lemma mem_loops_loopStep (h : phase ∈ (r.loopStep i s).loops) :
    ∃ old ∈ r.loops, phase = old ∨ phase = r.next old s := by
  obtain ⟨j, hj⟩ := mem_iff_getElem?.mp h
  rw [loops_loopStep, Option.map_eq_some_iff] at hj
  obtain ⟨old, hold, rfl⟩ := hj
  refine ⟨old, mem_of_getElem? hold, ?_⟩
  by_cases hij : i = j <;> simp [hij]

/-- A goroutine that waits for a channel either waited for it before or has just read the field. -/
lemma next_eq_selecting {ch : Option ℕ} (h : r.next phase s = .selecting ch) :
    phase = .selecting ch ∨ phase = .ready ∧ ch = r.stopCh := by
  cases phase with
  | ready => cases s <;> simp_all [next]
  | selecting stopCh =>
    cases stopCh <;> cases s <;> simp_all [next]
    split at h <;> simp_all
  | busy | exited => cases s <;> simp_all [next]

/-- An open channel ends no goroutine. -/
lemma next_ne_exited (hclosed : r.closed = []) (hlive : phase ≠ .exited) :
    r.next phase s ≠ .exited := by
  cases phase with
  | selecting ch => cases ch <;> cases s <;> simp [next, hclosed]
  | exited => exact absurd rfl hlive
  | _ => cases s <;> simp [next]

end LoopRunner

/-! ## The worker's channels -/

namespace LoopRunner

variable {r : LoopRunner} {i j : ℕ} {s : LoopStep} {phase : LoopPhase}

/-- The channels of a worker that has been started and stopped any number of times: between `Start`
and `Stop` the field holds an open channel, afterwards a closed one, and who waits for another
channel waits for a closed one. -/
structure Wired (r : LoopRunner) : Prop where
  closed_lt : ∀ ch ∈ r.closed, ch < r.made
  stopCh_lt : ∀ ch ∈ r.stopCh, ch < r.made
  on : r.running = true → (∃ ch, r.stopCh = some ch ∧ ch ∉ r.closed) ∧ ∃ i, r.Lives i
  off : r.running = false → r.loops ≠ [] → ¬ r.Open r.stopCh
  waits : ∀ ch, .selecting ch ∈ r.loops → r.Open ch → ch = r.stopCh
  calm : r.panicked = false

lemma wired_newWorkerLoop : newWorkerLoop.Wired := by
  constructor <;> simp [newWorkerLoop]

lemma Wired.goesOn_iff (h : r.Wired) (hmem : phase ∈ r.loops) :
    r.GoesOn phase ↔ r.Open r.stopCh ∧
      (phase = .ready ∨ phase = .busy ∨ phase = .selecting r.stopCh) := by
  cases phase with
  | ready => simp [GoesOn]
  | busy => simp [GoesOn]
  | exited => simp [GoesOn]
  | selecting ch =>
    constructor
    · intro hopen
      have hch := h.waits ch hmem hopen
      subst hch
      exact ⟨hopen, by simp⟩
    · rintro ⟨hopen, hch⟩
      simp only [reduceCtorEq, LoopPhase.selecting.injEq, false_or] at hch
      exact hch ▸ hopen

/-- After `Stop` nobody goes on. -/
lemma Wired.not_lives (h : r.Wired) (hoff : r.running = false) : ¬ r.Lives i := by
  rintro ⟨phase, hphase, hgoes⟩
  have hmem := mem_of_getElem? hphase
  exact h.off hoff (ne_nil_of_mem hmem) ((h.goesOn_iff hmem).mp hgoes).1

lemma Wired.stop (h : r.Wired) : r.stop.Wired := by
  unfold LoopRunner.stop
  split
  next hon =>
    obtain ⟨⟨ch, hch, hopen⟩, -⟩ := h.on hon
    simp only [hch, if_neg hopen]
    refine ⟨?_, hch ▸ h.stopCh_lt, by simp, fun _ _ => by simp [Open], ?_, h.calm⟩
    · intro old hold
      rcases mem_cons.mp hold with rfl | hold
      · exact h.stopCh_lt old hch
      · exact h.closed_lt old hold
    · intro old hmem hold
      have hopen_old : r.Open old := fun n hn hclosed => hold n hn (mem_cons_of_mem ch hclosed)
      exact (h.waits old hmem hopen_old).trans hch
  next => exact h

/-- The new channel is open, and every channel that was open before is the old one. -/
lemma Wired.start (h : r.Wired) : (startWorker r).Wired := by
  unfold startWorker
  split
  next => exact h
  next hoff =>
    have hoff : r.running = false := by simpa using hoff
    have hfresh : r.made ∉ r.closed := fun hmem => Nat.lt_irrefl _ (h.closed_lt _ hmem)
    refine ⟨fun ch hch => Nat.lt_succ_of_lt (h.closed_lt ch hch), by simp, fun _ =>
      ⟨⟨_, rfl, hfresh⟩, ?_⟩,
      by simp, ?_, h.calm⟩
    · refine ⟨r.loops.length, .ready, by simp, ?_⟩
      intro n hn
      simp only [Option.mem_def, Option.some.injEq] at hn
      exact hn ▸ hfresh
    · intro ch hmem hopen
      have hmem : .selecting ch ∈ r.loops := by simpa using hmem
      have hshut := h.off hoff (ne_nil_of_mem hmem)
      exact absurd (h.waits ch hmem hopen ▸ hopen) hshut

/-- A step of a goroutine that goes on leaves it going on. -/
lemma Wired.goesOn_next (h : r.Wired) (hmem : phase ∈ r.loops) (hgoes : r.GoesOn phase) :
    r.GoesOn (r.next phase s) := by
  obtain ⟨hopen, rfl | rfl | rfl⟩ := (h.goesOn_iff hmem).mp hgoes
  · cases s <;> simpa [next, GoesOn] using hopen
  · cases s <;> simpa [next, GoesOn] using hopen
  · cases hch : r.stopCh with
    | none => cases s <;> simp [next, GoesOn, Open, hch]
    | some ch =>
      have hnot : ch ∉ r.closed := hopen ch hch
      cases s <;> simp [next, GoesOn, Open, hch, hnot]

lemma Wired.loopStep (h : r.Wired) : (r.loopStep i s).Wired := by
  refine ⟨h.closed_lt, h.stopCh_lt, fun hon => ⟨(h.on hon).1, ?_⟩, fun hoff hloops => ?_, ?_, h.calm⟩
  · obtain ⟨j, phase, hphase, hgoes⟩ := (h.on hon).2
    refine ⟨j, lives_loopStep.mpr ⟨phase, hphase, ?_⟩⟩
    split
    · exact h.goesOn_next (mem_of_getElem? hphase) hgoes
    · exact hgoes
  · refine h.off hoff fun hnil => hloops ?_
    simp [LoopRunner.loopStep, hnil]
  · intro ch hmem hopen
    obtain ⟨old, hold, heq | heq⟩ := mem_loops_loopStep hmem
    · exact h.waits ch (heq ▸ hold) hopen
    · rcases next_eq_selecting heq.symm with rfl | ⟨-, hch⟩
      · exact h.waits ch hold hopen
      · exact hch

end LoopRunner

/-! ## The evictor under changes of leadership -/

/-- The loops of a node; a node without cold spilling has no evictor. -/
structure NodeLoops where
  worker : LoopRunner
  evictor : Option LoopRunner
  deriving DecidableEq, Repr

/-- A change of leadership, or a step of one of the loops. -/
inductive NodeEvent where
  | becomeLeader
  | loseLeadership
  | worker (i : ℕ) (s : LoopStep)
  | evictor (i : ℕ) (s : LoopStep)
  deriving DecidableEq, Repr

namespace NodeLoops

def step (n : NodeLoops) : NodeEvent → NodeLoops
  | .becomeLeader => ⟨startWorker n.worker, n.evictor.map startEvictor⟩
  | .loseLeadership => ⟨n.worker.stop, n.evictor.map LoopRunner.stop⟩
  | .worker i s => { n with worker := n.worker.loopStep i s }
  | .evictor i s => { n with evictor := n.evictor.map fun se => se.loopStep i s }

/-- A node with cold spilling, before it first became leader. -/
def coldSpilling : NodeLoops := ⟨newWorkerLoop, some newEvictorLoop⟩

/-- No call has panicked, and between `Start` and `Stop` an eviction loop goes on. -/
def Orderly (n : NodeLoops) : Prop :=
  n.worker.panicked = false ∧
    ∀ se ∈ n.evictor, se.panicked = false ∧ (se.running = true → ∃ i, se.Lives i)

/-- The worker is sound; the evictor's flag and the channels closed are as given. -/
structure Stage (running : Bool) (closed : List ℕ) (n : NodeLoops) (se : LoopRunner) : Prop where
  wired : n.worker.Wired
  evictor : n.evictor = some se
  flag : se.running = running
  shut : se.closed = closed
  field : se.stopCh = some 0
  waits : ∀ ch, .selecting ch ∈ se.loops → ch = some 0
  live : running = true → ∃ phase ∈ se.loops, phase ≠ .exited
  calm : se.panicked = false

variable {n : NodeLoops} {se : LoopRunner} {events : List NodeEvent} {running : Bool}
  {closed : List ℕ}

lemma Stage.coldSpilling : Stage false [] coldSpilling newEvictorLoop := by
  constructor <;> simp [NodeLoops.coldSpilling, newEvictorLoop, LoopRunner.wired_newWorkerLoop]

/-- Before `Start` and after `Stop`, and while the channel is open. -/
lemma Stage.orderly (h : Stage running closed n se) (hopen : running = true → closed = []) :
    n.Orderly := by
  refine ⟨h.wired.calm, fun se' hse' => ?_⟩
  obtain rfl : se = se' := by simpa [h.evictor] using hse'
  refine ⟨h.calm, fun hon => ?_⟩
  have hon : running = true := h.flag ▸ hon
  obtain ⟨phase, hphase, hlive⟩ := h.live hon
  obtain ⟨i, hi⟩ := mem_iff_getElem?.mp hphase
  refine ⟨i, phase, hi, ?_⟩
  have hall : ∀ ch, se.Open ch := by simp [LoopRunner.Open, h.shut, hopen hon]
  cases phase with
  | exited => exact hlive rfl
  | _ => exact hall _

lemma Stage.becomeLeader (h : Stage false [] n se) :
    Stage true [] (n.step .becomeLeader) (startEvictor se) := by
  have hstart : startEvictor se = { se with running := true, loops := se.loops ++ [.ready] } := by
    simp [startEvictor, h.flag]
  rw [hstart]
  refine ⟨h.wired.start, by simp [step, h.evictor, hstart], rfl, h.shut, h.field, ?_, ?_, h.calm⟩
  · intro ch hmem
    exact h.waits ch (by simpa using hmem)
  · intro _
    exact ⟨.ready, by simp, by simp⟩

lemma Stage.becomeLeader_again (h : Stage true closed n se) :
    Stage true closed (n.step .becomeLeader) se := by
  have hstart : startEvictor se = se := by simp [startEvictor, h.flag]
  exact { h with wired := h.wired.start, evictor := by simp [step, h.evictor, hstart] }

lemma Stage.loseLeadership (h : Stage true [] n se) :
    Stage false [0] (n.step .loseLeadership) se.stop := by
  have hstop : se.stop = { se with closed := [0], running := false } := by
    simp [LoopRunner.stop, h.flag, h.field, h.shut]
  rw [hstop]
  exact ⟨h.wired.stop, by simp [step, h.evictor, hstop], rfl, rfl, h.field, h.waits, by simp, h.calm⟩

lemma Stage.loseLeadership_again (h : Stage false closed n se) :
    Stage false closed (n.step .loseLeadership) se := by
  have hstop : se.stop = se := by simp [LoopRunner.stop, h.flag]
  exact { h with wired := h.wired.stop, evictor := by simp [step, h.evictor, hstop] }

lemma Stage.worker (h : Stage running closed n se) (i : ℕ) (s : LoopStep) :
    Stage running closed (n.step (.worker i s)) se :=
  { h with wired := h.wired.loopStep, evictor := h.evictor }

/-- While the channel is open no eviction loop ends. -/
lemma Stage.evictorStep (h : Stage running closed n se) (hopen : running = true → closed = [])
    (i : ℕ) (s : LoopStep) : Stage running closed (n.step (.evictor i s)) (se.loopStep i s) := by
  refine ⟨h.wired, by simp [step, h.evictor], h.flag, h.shut, h.field, ?_, ?_, h.calm⟩
  · intro ch hmem
    obtain ⟨old, hold, heq | heq⟩ := LoopRunner.mem_loops_loopStep hmem
    · exact h.waits ch (heq ▸ hold)
    · rcases LoopRunner.next_eq_selecting heq.symm with rfl | ⟨-, hch⟩
      · exact h.waits ch hold
      · exact hch.trans h.field
  · intro hon
    obtain ⟨phase, hphase, hlive⟩ := h.live hon
    obtain ⟨j, hj⟩ := mem_iff_getElem?.mp hphase
    refine ⟨_, mem_of_getElem? (by rw [LoopRunner.loops_loopStep, hj]; rfl), ?_⟩
    have hclosed : se.closed = [] := h.shut.trans (hopen hon)
    by_cases hij : i = j
    · simpa [hij] using LoopRunner.next_ne_exited hclosed hlive
    · simpa [hij] using hlive

/-- Who is started over a closed channel ends at the first `select`. -/
lemma Stage.not_orderly (h : Stage false [0] n se) : ¬ (n.step .becomeLeader).Orderly := by
  rintro ⟨-, hevictor⟩
  have hstart : startEvictor se = { se with running := true, loops := se.loops ++ [.ready] } := by
    simp [startEvictor, h.flag]
  obtain ⟨-, hlives⟩ := hevictor (startEvictor se) (by simp [step, h.evictor])
  obtain ⟨i, phase, hphase, hgoes⟩ := hlives (by rw [hstart])
  have hshut : ¬ (startEvictor se).Open (some 0) := by simp [LoopRunner.Open, hstart, h.shut]
  have hfield : (startEvictor se).stopCh = some 0 := by rw [hstart]; exact h.field
  cases phase with
  | ready | busy => exact hshut (hfield ▸ hgoes)
  | exited => exact hgoes
  | selecting ch =>
    have hmem := mem_of_getElem? hphase
    rw [hstart] at hmem
    have hch := h.waits ch (by simpa using hmem)
    exact hshut (hch ▸ hgoes)

/-! From each stage, the events that keep the node orderly. -/

lemma Stage.spent_iff (h : Stage false [0] n se) :
    (∀ done, done <+: events → (done.foldl step n).Orderly) ↔ .becomeLeader ∉ events := by
  induction events generalizing n se with
  | nil => simpa using h.orderly (by simp)
  | cons e events ih =>
    rw [Run.forall_prefix_cons, and_iff_right (h.orderly (by simp))]
    cases e with
    | becomeLeader =>
      simp only [mem_cons, true_or, not_true, iff_false]
      intro hall
      exact h.not_orderly (hall [] nil_prefix)
    | loseLeadership => simpa using ih h.loseLeadership_again
    | worker i s => simpa using ih (h.worker i s)
    | evictor i s => simpa using ih (h.evictorStep (by simp) i s)

lemma Stage.serving_iff (h : Stage true [] n se) :
    (∀ done, done <+: events → (done.foldl step n).Orderly) ↔
      ¬ Sublist [.loseLeadership, .becomeLeader] events := by
  induction events generalizing n se with
  | nil => simpa using h.orderly (by simp)
  | cons e events ih =>
    rw [Run.forall_prefix_cons, and_iff_right (h.orderly (by simp))]
    cases e with
    | becomeLeader => simpa [cons_sublist_cons'] using ih h.becomeLeader_again
    | loseLeadership =>
      rw [h.loseLeadership.spent_iff, cons_sublist_cons, singleton_sublist]
    | worker i s => simpa [cons_sublist_cons'] using ih (h.worker i s)
    | evictor i s =>
      simpa [cons_sublist_cons'] using ih (h.evictorStep (by simp) i s)

lemma Stage.unstarted_iff (h : Stage false [] n se) :
    (∀ done, done <+: events → (done.foldl step n).Orderly) ↔
      ¬ Sublist [.becomeLeader, .loseLeadership, .becomeLeader] events := by
  induction events generalizing n se with
  | nil => simpa using h.orderly (by simp)
  | cons e events ih =>
    rw [Run.forall_prefix_cons, and_iff_right (h.orderly (by simp))]
    cases e with
    | becomeLeader => rw [h.becomeLeader.serving_iff, cons_sublist_cons]
    | loseLeadership => simpa [cons_sublist_cons'] using ih h.loseLeadership_again
    | worker i s => simpa [cons_sublist_cons'] using ih (h.worker i s)
    | evictor i s =>
      simpa [cons_sublist_cons'] using ih (h.evictorStep (by simp) i s)

/-- A node with cold spilling stays orderly exactly if it does not become leader again after it has
been leader and lost leadership. -/
theorem evictor_orderly_iff (events : List NodeEvent) :
    (∀ done, done <+: events → (done.foldl step coldSpilling).Orderly) ↔
      ¬ Sublist [.becomeLeader, .loseLeadership, .becomeLeader] events :=
  Stage.coldSpilling.unstarted_iff

/-- Leader twice: the second eviction loop ends at its first `select`, and when leadership is lost
again the channel is closed a second time. -/
theorem second_term_panics :
    let events : List NodeEvent := [.becomeLeader, .loseLeadership, .becomeLeader,
      .evictor 0 .enter, .evictor 0 .stopped, .evictor 1 .enter, .evictor 1 .stopped]
    let n := events.foldl step coldSpilling
    n.evictor = some ⟨true, some 0, 1, [0], [.exited, .exited], false⟩ ∧
      (n.step .loseLeadership).evictor = some ⟨true, some 0, 1, [0], [.exited, .exited], true⟩ ∧
      ¬ n.Orderly ∧ ¬ (n.step .loseLeadership).Orderly := by
  refine ⟨rfl, rfl, ?_, ?_⟩
  · rintro ⟨-, hevictor⟩
    obtain ⟨i, phase, hphase, hgoes⟩ := (hevictor _ rfl).2 rfl
    have hended : ∀ phase ∈ [LoopPhase.exited, .exited], phase = .exited := by decide
    rw [hended phase (mem_of_getElem? hphase)] at hgoes
    exact hgoes
  · rintro ⟨-, hevictor⟩
    exact absurd (hevictor _ rfl).1 (by decide)

end NodeLoops

/-! ## One loop of the worker -/

/-- A call of `Start` or `Stop`, or a step of one of the goroutines. -/
inductive WorkerEvent where
  | start
  | stop
  | loop (i : ℕ) (s : LoopStep)
  deriving DecidableEq, Repr

namespace LoopRunner

variable {r : LoopRunner} {i j : ℕ} {s : LoopStep} {phase : LoopPhase}

/-- The worker after an event. -/
def workerStep (r : LoopRunner) : WorkerEvent → LoopRunner
  | .start => startWorker r
  | .stop => r.stop
  | .loop i s => r.loopStep i s

/-- At most one goroutine goes on. -/
def OneLoop (r : LoopRunner) : Prop := ∀ i j, r.Lives i → r.Lives j → i = j

/-- `Start` finds no goroutine between two `select`s, and no goroutine takes a tick although its
channel is closed and the worker runs again. -/
def Separates (r : LoopRunner) : WorkerEvent → Prop
  | .start => r.running = true ∨ ∀ phase ∈ r.loops, phase ≠ .ready ∧ phase ≠ .busy
  | .loop i .tick =>
    ∀ ch ∈ r.closed, r.loops[i]? = some (.selecting (some ch)) → r.running = false
  | _ => True

lemma Wired.workerStep (h : r.Wired) (e : WorkerEvent) : (r.workerStep e).Wired := by
  cases e with
  | start => exact h.start
  | stop => exact h.stop
  | loop i s => exact h.loopStep

lemma Wired.oneLoop_of_not_running (h : r.Wired) (hoff : r.running = false) : r.OneLoop :=
  fun _ _ hi => absurd hi (h.not_lives hoff)

/-- After `Start` the new goroutine goes on, and with it every old one that will read the field. -/
lemma Wired.lives_start (h : r.Wired) (hoff : r.running = false) :
    (startWorker r).Lives i ↔
      i = r.loops.length ∨ r.loops[i]? = some .ready ∨ r.loops[i]? = some .busy := by
  have hstart : startWorker r =
      { r with
        stopCh := some r.made
        made := r.made + 1
        running := true
        loops := r.loops ++ [.ready] } := by
    simp [startWorker, hoff]
  have hopen : (startWorker r).Open (startWorker r).stopCh := by
    obtain ⟨⟨ch, hch, hnot⟩, -⟩ := h.start.on (by rw [hstart])
    simpa [Open, hch] using hnot
  have hloops : (startWorker r).loops = r.loops ++ [.ready] := by rw [hstart]
  constructor
  · rintro ⟨phase, hphase, hgoes⟩
    rw [hloops, getElem?_append] at hphase
    split at hphase
    · right
      have hmem := mem_of_getElem? hphase
      have hnot : ¬ r.GoesOn phase := fun hgoes => h.not_lives hoff ⟨phase, hphase, hgoes⟩
      cases phase with
      | ready => exact .inl hphase
      | busy => exact .inr hphase
      | exited => exact absurd hgoes id
      | selecting ch =>
        -- it waits for a channel that was closed and is not reopened
        rw [hstart] at hgoes
        exact absurd hgoes hnot
    · left
      have hlt := (List.getElem?_eq_some_iff.mp hphase).1
      simp only [List.length_singleton] at hlt
      omega
  · rintro (rfl | hready | hbusy)
    · exact ⟨.ready, by simp [hloops], hopen⟩
    · have hlt := (List.getElem?_eq_some_iff.mp hready).1
      exact ⟨.ready, by simpa [hloops, List.getElem?_append_left hlt] using hready, hopen⟩
    · have hlt := (List.getElem?_eq_some_iff.mp hbusy).1
      exact ⟨.busy, by simpa [hloops, List.getElem?_append_left hlt] using hbusy, hopen⟩

lemma Wired.oneLoop_start_iff (h : r.Wired) (hone : r.OneLoop) :
    (startWorker r).OneLoop ↔ r.Separates .start := by
  cases hrun : r.running with
  | true => simp [startWorker, Separates, hrun, hone]
  | false =>
    simp only [OneLoop, h.lives_start hrun, Separates, hrun, Bool.false_eq_true, false_or]
    constructor
    · intro hall phase hmem
      obtain ⟨i, hi⟩ := List.mem_iff_getElem?.mp hmem
      have hlt := (List.getElem?_eq_some_iff.mp hi).1
      constructor <;> rintro rfl
      · exact Nat.ne_of_lt hlt (hall i r.loops.length (.inr (.inl hi)) (.inl rfl))
      · exact Nat.ne_of_lt hlt (hall i r.loops.length (.inr (.inr hi)) (.inl rfl))
    · intro hnone
      have honly : ∀ i, i = r.loops.length ∨ r.loops[i]? = some .ready ∨ r.loops[i]? = some .busy →
          i = r.loops.length := by
        rintro i (rfl | hi | hi)
        · rfl
        · exact absurd rfl (hnone _ (mem_of_getElem? hi)).1
        · exact absurd rfl (hnone _ (mem_of_getElem? hi)).2
      intro i j hi hj
      exact (honly i hi).trans (honly j hj).symm

/-- Only a tick taken over a closed channel makes a goroutine go on that did not. -/
lemma goesOn_of_next (hnext : r.GoesOn (r.next phase s))
    (hsep : s = .tick → ∀ ch ∈ r.closed, phase ≠ .selecting (some ch)) : r.GoesOn phase := by
  cases phase with
  | ready => cases s <;> exact hnext
  | busy => cases s <;> exact hnext
  | exited => cases s <;> exact hnext
  | selecting ch =>
    cases ch with
    | none => simp [GoesOn, Open]
    | some ch =>
      by_contra hclosed
      have hclosed : ch ∈ r.closed := not_open_some.mp hclosed
      cases s with
      | tick => exact hsep rfl ch hclosed rfl
      | stopped => simp [next, hclosed, GoesOn] at hnext
      | enter | finish => exact not_open_some.mpr hclosed hnext

lemma Wired.oneLoop_loop_iff (h : r.Wired) (hone : r.OneLoop) (i : ℕ) (s : LoopStep) :
    (r.loopStep i s).OneLoop ↔ r.Separates (.loop i s) := by
  constructor
  · intro hone'
    cases s with
    | tick =>
      intro ch hclosed hi
      by_contra hrun
      have hrun : r.running = true := by simpa using hrun
      -- the goroutine at work beside it
      obtain ⟨⟨cur, hcur, hopen⟩, j, hj⟩ := h.on hrun
      obtain ⟨phase, hphase, hgoes⟩ := hj
      have hne : i ≠ j := by
        rintro rfl
        rw [Option.mem_def, hi, Option.some.injEq] at hphase
        subst hphase
        exact not_open_some.mpr hclosed hgoes
      refine hne (hone' i j (lives_loopStep.mpr ⟨_, hi, ?_⟩) (lives_loopStep.mpr ⟨phase, hphase, ?_⟩))
      · simpa [next, GoesOn, Open, hcur] using hopen
      · simpa [hne] using hgoes
    | _ => trivial
  · intro hsep
    cases hrun : r.running with
    | false => exact h.loopStep.oneLoop_of_not_running hrun
    | true =>
      have hback : ∀ j, (r.loopStep i s).Lives j → r.Lives j := by
        intro j hj
        obtain ⟨phase, hphase, hgoes⟩ := lives_loopStep.mp hj
        refine ⟨phase, hphase, ?_⟩
        split at hgoes
        next hij =>
          subst hij
          refine goesOn_of_next hgoes ?_
          rintro rfl ch hclosed rfl
          simpa [hrun] using hsep ch hclosed hphase
        next => exact hgoes
      intro j k hj hk
      exact hone j k (hback j hj) (hback k hk)

lemma Wired.oneLoop_step_iff (h : r.Wired) (hone : r.OneLoop) (e : WorkerEvent) :
    (r.workerStep e).OneLoop ↔ r.Separates e := by
  cases e with
  | start => exact h.oneLoop_start_iff hone
  | stop =>
    refine iff_of_true ?_ trivial
    cases hrun : r.running with
    | false =>
      have hsame : r.workerStep .stop = r := by simp [LoopRunner.workerStep, LoopRunner.stop, hrun]
      rwa [hsame]
    | true =>
      obtain ⟨⟨ch, hch, hopen⟩, -⟩ := h.on hrun
      refine h.stop.oneLoop_of_not_running ?_
      simp [LoopRunner.stop, hrun, hch, hopen]
  | loop i s => exact h.oneLoop_loop_iff hone i s

/-- At most one loop of the worker goes on, all along a run, exactly if every step separates the old
loops from the new one. -/
theorem one_loop_iff (events : List WorkerEvent) :
    (∀ done, done <+: events → (done.foldl workerStep newWorkerLoop).OneLoop) ↔
      Run.Along workerStep Separates newWorkerLoop events := by
  have hwired : ∀ done : List WorkerEvent, (done.foldl workerStep newWorkerLoop).Wired := by
    intro done
    exact foldlRecOn done _ wired_newWorkerLoop fun r hr e _ => hr.workerStep e
  have hstep : ∀ (r : LoopRunner) (e : WorkerEvent), r.Wired ∧ r.OneLoop →
      ((r.workerStep e).Wired ∧ (r.workerStep e).OneLoop ↔ r.Separates e) := by
    rintro r e ⟨hr, hone⟩
    rw [and_iff_right (hr.workerStep e), hr.oneLoop_step_iff hone]
  have hstart : newWorkerLoop.OneLoop := wired_newWorkerLoop.oneLoop_of_not_running rfl
  rw [← Run.forall_prefix_iff hstep ⟨wired_newWorkerLoop, hstart⟩]
  exact forall₂_congr fun done _ => (and_iff_right (hwired done)).symm

/-- A loop busy with a slow webhook during `Stop` and `Start` finds the new channel. -/
theorem busy_loop_survives_restart :
    let events : List WorkerEvent := [.start, .loop 0 .enter, .loop 0 .tick, .stop, .start,
      .loop 0 .finish, .loop 0 .enter]
    let r := events.foldl workerStep newWorkerLoop
    r.loops = [.selecting (some 1), .ready] ∧ r.stopCh = some 1 ∧ r.closed = [0] ∧
      r.Lives 0 ∧ r.Lives 1 ∧ ¬ r.OneLoop := by
  intro events r
  have h0 : r.Lives 0 := ⟨.selecting (some 1), rfl, by decide⟩
  have h1 : r.Lives 1 := ⟨.ready, rfl, by decide⟩
  exact ⟨rfl, rfl, rfl, h0, h1, fun hone => absurd (hone 0 1 h0 h1) (by decide)⟩

end LoopRunner

end ScheduledDb
