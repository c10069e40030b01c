import ScheduledDb.Slots.TimingWheel.Minimum

/-!
# The slot that the base stands at

A wheel whose base moves over one boundary at a time, as it does under a worker that looks at it
often enough, stands at a slot and holds keys of that slot or later ones.  The slot itself is then
on level `0`, under the cursor, where `PeekMin` finds it (`StandsAt.peekMin`); no key of an upper
level, and none of the overflow area, can be due.
-/

namespace ScheduledDb

open Machine Odometer IdealTimer

namespace HierarchicalTimingWheel

variable {G : WheelGeometry} {w : HierarchicalTimingWheel} {b k : ℤ}

/-- The wheel runs, its base is that of slot `b`, and it is as the invariant of chain geometry
says. -/
def StandsAt (w : HierarchicalTimingWheel) (G : WheelGeometry) (b : ℤ) : Prop :=
  ∃ b0 t, Tracks G b0 t w ⟨b, {k | w.Holds k}⟩

/-- The wheel tracks a timer with the keys it holds, whatever they are. -/
lemma Tracks.standsAt {b0 : ℤ} {t : ℕ} {s : Timer} (h : Tracks G b0 t w s) :
    w.StandsAt G s.base :=
  ⟨b0, t, h.seated, h.far, h.base, fun _ => Iff.rfl, h.nonneg⟩

lemma Fits.wellFormed (h : w.Fits G) : w.WellFormed := by
  have hlevel : ∀ l ∈ w.levels, ∃ i, l.Fits G i := by
    intro l hl
    obtain ⟨i, hi⟩ := List.mem_iff_getElem?.mp hl
    exact ⟨i, h.level i l hi⟩
  refine ⟨?_, fun l hl => ?_, fun l hl => ?_⟩
  · have hdepth := h.depth
    have htwo := G.two_le_depth
    intro hnil
    simp [hnil] at hdepth
    omega
  · obtain ⟨i, hi⟩ := hlevel l hl
    rw [hi.count]
    exact G.faces_pos i
  · obtain ⟨i, hi⟩ := hlevel l hl
    rw [hi.length, hi.count]

namespace StandsAt

lemma initialized (h : w.StandsAt G b) : w.initialized = true := by
  obtain ⟨b0, t, h⟩ := h
  exact h.seated.initialized

lemma nonneg (h : w.StandsAt G b) (hk : w.Holds k) : 0 ≤ k := by
  obtain ⟨b0, t, h⟩ := h
  exact h.nonneg k hk

lemma inRange (h : w.StandsAt G b) (hk : w.Holds k) : InRange (k * G.gap) := by
  obtain ⟨b0, t, h⟩ := h
  exact (h.seated.range k hk).1

lemma readable (h : w.StandsAt G b) : w.Readable G.gap := by
  obtain ⟨b0, t, htracks⟩ := h
  have hrun := htracks.seated.initialized
  refine ⟨htracks.seated.fits.wellFormed, htracks.seated.fits.gap, fun hwait => ?_, fun k hk => ?_⟩
  · simp [hrun] at hwait
  · exact ⟨htracks.nonneg k hk, (htracks.seated.range k hk).1⟩

lemma add (h : w.StandsAt G b) (hb : 0 ≤ b) (hk : 0 ≤ k) (hrange : InRange (k * G.gap)) :
    (w.add k).StandsAt G b := by
  obtain ⟨b0, t, h⟩ := h
  have hbase : w.currentBase = b * G.gap := h.currentBase
  have hdist : KeyInRange G w.currentBase k := by
    have hbaseRange := h.seated.baseRange
    rw [hbase] at hbaseRange ⊢
    have hk0 := mul_nonneg hk G.gap_pos.le
    have hb0 := mul_nonneg hb G.gap_pos.le
    have hhigh := hrange.2
    have hbaseHigh := hbaseRange.2
    exact ⟨hrange, by omega, by omega⟩
  exact (h.add hk hdist).standsAt

lemma holds_add (h : w.StandsAt G b) (k k' : ℤ) : (w.add k).Holds k' ↔ w.Holds k' ∨ k' = k :=
  (add_keeps h.readable.wellFormed k).2 k'

lemma remove (h : w.StandsAt G b) (k : ℤ) : (w.remove k).StandsAt G b := by
  obtain ⟨b0, t, h⟩ := h
  refine ⟨b0, t, h.seated.remove k, fun k' hk' => ?_, h.base, fun _ => Iff.rfl, fun k' hk' => ?_⟩
  · exact h.far k' ((w.overflow_remove k).subset hk')
  · exact h.nonneg k' (holds_of_remove hk')

/-- **Moving on by at most one slot.**  `Advance` returns the keys whose slot is over, and keeps the
others. -/
lemma advance (h : w.StandsAt G b) {now : ℤ} (hnow : InRange now)
    (hstep : now.tdiv G.gap = b ∨ now.tdiv G.gap = b + 1) :
    (w.advance now).1.StandsAt G (now.tdiv G.gap) ∧
      (∀ k, k ∈ (w.advance now).2 ↔ w.Holds k ∧ b < now.tdiv G.gap ∧ k < now.tdiv G.gap) ∧
      ∀ k, (w.advance now).1.Holds k ↔ w.Holds k ∧ (b < now.tdiv G.gap → now.tdiv G.gap ≤ k) := by
  obtain ⟨b0, t, h⟩ := h
  have hone : w.baseAt now ≤ w.currentBase + w.slotGapSeconds := by
    have hle : now.tdiv G.gap * G.gap ≤ (b + 1) * G.gap := base_le_base (by omega)
    rw [h.baseAt, h.currentBase, h.seated.fits.gap]
    linarith
  obtain ⟨t', htracks, -, hready⟩ := h.advance hnow hone
  have hmax : max b (now.tdiv G.gap) = now.tdiv G.gap := max_eq_right (by omega)
  have hbase : ((⟨b, {k | w.Holds k}⟩ : Timer).step (.reach (now.tdiv G.gap))).base
      = now.tdiv G.gap := hmax
  refine ⟨hbase ▸ htracks.standsAt, fun k => ?_, fun k => ?_⟩
  · rw [hready]
    exact ⟨fun ⟨hlt, hk, hle⟩ => ⟨hk, hlt, hle⟩, fun ⟨hk, hlt, hle⟩ => ⟨hlt, hk, hle⟩⟩
  · exact htracks.holds k

/-- The key of the slot that the base stands at is on level `0`: a bucket of an upper level is
emptied before the slots of its keys begin, and the overflow area has far keys only. -/
lemma at_bottom (h : w.StandsAt G b) (hb : w.Holds b) : ∃ j, w.At b 0 j := by
  obtain ⟨b0, t, h⟩ := h
  have hbase : b = b0 + t := h.base
  rcases hb with ⟨i, j, hat⟩ | hover
  · rcases Nat.eq_zero_or_pos i with rfl | hi
    · exact ⟨j, hat⟩
    · have hle := h.seated.upper b i j hi hat
      have hlt := G.lt_width_mul_nextTurn t i j
      omega
  · refine absurd ?_ (h.far b hover)
    rw [Within, Int.toNat_of_nonpos (by omega)]
    simpa using G.coverage_pos

/-- **The slot that the base stands at is found**, if no key of an earlier one is left. -/
lemma peekMin (h : w.StandsAt G b) (hb : w.Holds b) (hleast : ∀ k, w.Holds k → b ≤ k) :
    w.peekMin = b * G.gap := by
  obtain ⟨j, hj⟩ := h.at_bottom hb
  refine ((h.readable.peekMin_eq_iff G.gap_pos).2 b hb hleast).mpr ?_
  obtain ⟨b0, t, htracks⟩ := h
  exact htracks.seated.inSight_of_bottom hleast hj

end StandsAt

/-- The wheel has not been started, or stands at slot `b`. -/
def Rests (w : HierarchicalTimingWheel) (G : WheelGeometry) (b : ℤ) : Prop :=
  w.Blank G ∨ w.StandsAt G b

namespace Rests

lemma standsAt (h : w.Rests G b) (hk : w.Holds k) : w.StandsAt G b :=
  h.resolve_left fun hblank => hblank.empty k hk

lemma remove (h : w.Rests G b) (k : ℤ) : (w.remove k).Rests G b :=
  h.imp (fun hblank => hblank.remove k) fun hstands => hstands.remove k

/-- What `PeekMin` says about a wheel at rest. -/
lemma peekMin (h : w.Rests G b) : w.peekMin = -1 ∨ ∃ k, w.Holds k ∧ w.peekMin = k * G.gap := by
  rcases h with hblank | hstands
  · left
    rw [HierarchicalTimingWheel.peekMin, hblank.waiting]
    rfl
  · rcases hstands.readable.peekMin G.gap_pos with ⟨-, hmin⟩ | ⟨k, hk, hmin, -⟩
    · exact Or.inl hmin
    · have hheld := (mem_seen.mp hk).holds
      exact Or.inr ⟨k, hheld, by rw [hmin, hstands.readable.computeSlotTime hheld]⟩

end Rests

end HierarchicalTimingWheel

end ScheduledDb
