import VendorKernel.Walt.WindowAlignment

/-! The election of the CPU that handles a window rollover: every CPU first advances its own
window and then tries to exchange `walt_irq_work_lastq_ws`. -/
namespace VendorKernel.Walt

open Machine List Function Option

def atomicCmpxchg (v old new : ℕ) : ℕ × ℕ := (if v = old then new else v, v)

/-- `run_walt_irq_work_rollover` on the content of `walt_irq_work_lastq_ws`; the second component
says that this CPU is tasked with the rollover. -/
def runWaltIrqWorkRollover (lastqWs oldWindowStart : ℕ) (rq : WaltRq) : ℕ × Bool :=
  if oldWindowStart = rq.windowStart then (lastqWs, false)
  else
    let (lastqWs, result) := atomicCmpxchg lastqWs oldWindowStart rq.windowStart
    (lastqWs, result = oldWindowStart)

structure ElectionSys (n : ℕ) where
  rq : Fin n → WaltRq
  irqWorkLastqWs : ℕ
  between : Fin n → Option ℕ
  /-- Not in the source: who replaced which value so far. -/
  replaced : List (Fin n × ℕ)

inductive ElectionOp (n : ℕ)
  | updateWindowStart (cpu : Fin n) (schedRavgWindow wallclock : ℕ)
  | runRollover (cpu : Fin n)

variable {n W t : ℕ} {s s' : ElectionSys n} {cpu : Fin n}

def ElectionSys.init (n schedRavgWindow tickSchedClock : ℕ) : ElectionSys n where
  rq _ := .init schedRavgWindow tickSchedClock
  irqWorkLastqWs := tickSchedClock
  between _ := none
  replaced := []

/-- The runqueue lock keeps a CPU from starting over between its two steps. A window size is a positive
`unsigned int`, a clock reading a `u64`. -/
def electionStep (s : ElectionSys n) : ElectionOp n → Option (ElectionSys n)
  | .updateWindowStart cpu schedRavgWindow wallclock =>
    if s.between cpu = none ∧ 0 < schedRavgWindow ∧ schedRavgWindow < 2 ^ 32 ∧ wallclock < 2 ^ 64 then
      (updateWindowStart schedRavgWindow (s.rq cpu) wallclock).map fun rq =>
        { s with rq := update s.rq cpu rq, between := update s.between cpu (some (s.rq cpu).windowStart) }
    else none
  | .runRollover cpu =>
    match s.between cpu with
    | none => none
    | some oldWindowStart =>
      let (lastqWs, won) := runWaltIrqWorkRollover s.irqWorkLastqWs oldWindowStart (s.rq cpu)
      some
        { s with
          irqWorkLastqWs := lastqWs
          between := update s.between cpu none
          replaced := if won then (cpu, oldWindowStart) :: s.replaced else s.replaced }

/-- The clock is past the window start, by a number of windows that an `int` can hold. -/
def ElectionOp.Fits (s : ElectionSys n) : ElectionOp n → Prop
  | .updateWindowStart cpu schedRavgWindow wallclock =>
    (s.rq cpu).windowStart ≤ wallclock ∧ (s.rq cpu).WindowsFit schedRavgWindow wallclock
  | .runRollover _ => True

instance (s : ElectionSys n) : DecidablePred (ElectionOp.Fits s)
  | .updateWindowStart _ _ _ => inferInstanceAs (Decidable (_ ∧ _))
  | .runRollover _ => .isTrue trivial

/-- Some CPU holds the current value or is leaving it; every value replaced so far is below it. -/
structure ElectionSys.Electable (s : ElectionSys n) : Prop where
  forward : ∀ cpu old, s.between cpu = some old → old ≤ (s.rq cpu).windowStart
  holder : ∃ cpu, (s.between cpu).getD (s.rq cpu).windowStart = s.irqWorkLastqWs
  below : ∀ r ∈ s.replaced, r.2 < s.irqWorkLastqWs
  once : (s.replaced.map Prod.snd).Nodup

/-- A window that has moved on is still held by its CPU, as the start it is leaving. -/
theorem electable_updateWindowStart (hs : s.Electable) (hfit : (ElectionOp.updateWindowStart cpu W t).Fits s)
    (h : electionStep s (.updateWindowStart cpu W t) = some s') : s'.Electable := by
  obtain ⟨⟨hidle, hW, hW32, ht⟩, h⟩ := ite_none_right_eq_some.mp h
  obtain ⟨rq, hrq, rfl⟩ := map_eq_some_iff.mp h
  obtain ⟨-, hle, -⟩ := updateWindowStart_bounds hW hW32 hfit.1 ht hfit.2 hrq
  refine ⟨?_, ?_, hs.below, hs.once⟩
  · intro c old hc
    by_cases hcpu : c = cpu
    · subst hcpu
      obtain rfl : (s.rq c).windowStart = old := by simpa using hc
      simpa using hle
    · simp only [ne_eq, hcpu, not_false_eq_true, update_of_ne] at hc ⊢
      exact hs.forward c old hc
  · obtain ⟨c, hc⟩ := hs.holder
    refine ⟨c, ?_⟩
    by_cases hcpu : c = cpu
    · subst hcpu
      rw [hidle] at hc
      simpa using hc
    · simpa [hcpu] using hc

theorem runWaltIrqWorkRollover_cases (lastqWs old : ℕ) (rq : WaltRq) :
    (old = rq.windowStart ∧ runWaltIrqWorkRollover lastqWs old rq = (lastqWs, false)) ∨
    (old ≠ rq.windowStart ∧ lastqWs = old ∧ runWaltIrqWorkRollover lastqWs old rq = (rq.windowStart, true)) ∨
    (old ≠ rq.windowStart ∧ lastqWs ≠ old ∧ runWaltIrqWorkRollover lastqWs old rq = (lastqWs, false)) := by
  unfold runWaltIrqWorkRollover atomicCmpxchg
  by_cases hsame : old = rq.windowStart
  · simp [hsame]
  · by_cases hlast : lastqWs = old
    · simp [hsame, hlast]
    · simp [hsame, hlast]

/-- One CPU at most replaces the value. -/
theorem electable_runRollover (hs : s.Electable) (h : electionStep s (.runRollover cpu) = some s') :
    s'.Electable := by
  simp only [electionStep] at h
  split at h
  · simp at h
  · next old hold =>
    cases h
    have hforward := hs.forward cpu old hold
    have hrest : ∀ c o, update s.between cpu none c = some o → o ≤ (s.rq c).windowStart := by
      intro c o hc
      by_cases hcpu : c = cpu
      · subst hcpu
        simp at hc
      · simp only [ne_eq, hcpu, not_false_eq_true, update_of_ne] at hc
        exact hs.forward c o hc
    obtain ⟨c, hc⟩ := hs.holder
    rcases runWaltIrqWorkRollover_cases s.irqWorkLastqWs old (s.rq cpu) with
      ⟨hsame, heq⟩ | ⟨hmove, hlast, heq⟩ | ⟨hmove, hlast, heq⟩
    · -- the window did not move: the CPU still stands for its window start
      simp only [heq]
      refine ⟨hrest, ⟨c, ?_⟩, hs.below, hs.once⟩
      by_cases hcpu : c = cpu
      · subst hcpu
        rw [hold] at hc
        simpa [← hsame] using hc
      · simpa [hcpu] using hc
    · -- the exchange is won: the CPU stands for the new value
      simp only [heq, if_true]
      refine ⟨hrest, ⟨cpu, by simp⟩, ?_, ?_⟩
      · intro r hr
        rcases mem_cons.mp hr with rfl | hr
        · exact lt_of_le_of_ne hforward hmove
        · have hlt := hs.below r hr
          dsimp only
          omega
      · rw [map_cons, nodup_cons]
        refine ⟨?_, hs.once⟩
        intro hmem
        obtain ⟨r, hr, hr2⟩ := mem_map.mp hmem
        have := hs.below r hr
        omega
    · -- the exchange is lost: somebody else stands for the recorded value
      simp only [heq]
      refine ⟨hrest, ⟨c, ?_⟩, hs.below, hs.once⟩
      have hcpu : c ≠ cpu := by
        rintro rfl
        rw [hold] at hc
        exact hlast hc.symm
      simpa [hcpu] using hc

theorem electable_step (s : ElectionSys n) (op : ElectionOp n) (s' : ElectionSys n)
    (hs : s.Electable) (hfit : op.Fits s) (h : electionStep s op = some s') : s'.Electable := by
  cases op with
  | updateWindowStart => exact electable_updateWindowStart hs hfit h
  | runRollover => exact electable_runRollover hs h

/-- Under every interleaving in which no update counts 2^31 windows, no value of `walt_irq_work_lastq_ws` is
replaced twice, and whenever no CPU is between its two steps some CPU's window start equals it. -/
theorem rollover_election (s₀ : ElectionSys n) {s : ElectionSys n} (ops : List (ElectionOp n))
    (hidle : ∀ cpu, s₀.between cpu = none) (hnone : s₀.replaced = [])
    (hinit : ∃ cpu, (s₀.rq cpu).windowStart = s₀.irqWorkLastqWs)
    (hfit : Meets electionStep ElectionOp.Fits s₀ ops) (hrun : run electionStep s₀ ops = some s) :
    (s.replaced.map Prod.snd).Nodup ∧
      ((∀ cpu, s.between cpu = none) → ∃ cpu, (s.rq cpu).windowStart = s.irqWorkLastqWs) := by
  obtain ⟨cpu, hcpu⟩ := hinit
  have hini : s₀.Electable :=
    ⟨fun c old hc => by simp [hidle c] at hc, ⟨cpu, by simpa [hidle cpu] using hcpu⟩,
      by simp [hnone], by simp [hnone]⟩
  have hs := run_inv electable_step hini hfit hrun
  refine ⟨hs.once, ?_⟩
  intro hqt
  obtain ⟨c, hc⟩ := hs.holder
  exact ⟨c, by simpa [hqt c] using hc⟩

/-- Two CPUs leave window 1000 at once, one by one window and one by two; the first to exchange
wins, the other loses. -/
theorem rollover_election_race :
    ∃ s : ElectionSys 2,
      run electionStep (ElectionSys.init 2 16 1000)
        [.updateWindowStart 0 16 1020, .updateWindowStart 1 16 1040, .runRollover 1, .runRollover 0] = some s ∧
      s.replaced = [(1, 1000)] ∧ ∃ cpu, (s.rq cpu).windowStart = s.irqWorkLastqWs := by
  refine ⟨_, rfl, rfl, (rollover_election (ElectionSys.init 2 16 1000)
    [.updateWindowStart 0 16 1020, .updateWindowStart 1 16 1040, .runRollover 1,
      .runRollover 0] ?_ rfl ⟨0, rfl⟩ (by decide) rfl).2 ?_⟩
  · exact fun _ => rfl
  · decide

/-- After 2^32 - 1 elapsed windows the count is -1 and the window start moves back, so the value 1000 is
replaced a second time. -/
theorem rollover_replaced_twice :
    ∃ s : ElectionSys 1,
      run electionStep (ElectionSys.init 1 16 1000)
        [.updateWindowStart 0 16 (1000 + 16 * (2 ^ 32 - 1)), .runRollover 0,
          .updateWindowStart 0 16 (1000 + 16 * 2 ^ 32), .runRollover 0,
          .updateWindowStart 0 16 (1000 + 16 * (2 ^ 32 + 1)), .runRollover 0] = some s ∧
      s.replaced = [(0, 1000), (0, 984), (0, 1000)] :=
  ⟨_, rfl, rfl⟩

end VendorKernel.Walt
