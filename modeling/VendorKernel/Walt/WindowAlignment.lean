import Mathlib.Algebra.Ring.Divisibility.Basic
import Mathlib.Tactic.Ring
import VendorKernel.Lib.Machine
import VendorKernel.Walt.BusyTime

/-! The window grids of the CPUs, which advance lazily while the window size changes; the starts stay a
multiple of the window size apart. -/
namespace VendorKernel.Walt

open Machine Nat Option Int

variable {W t k : ℕ} {rq rq' : WaltRq}

def WaltRq.advance (rq : WaltRq) (schedRavgWindow k : ℕ) : WaltRq :=
  let fullWindow : Bool := k > 1
  { rolloverCpuWindow rq fullWindow with
    windowStart := rq.windowStart + k * schedRavgWindow
    prevWindowSize := schedRavgWindow
    top := rq.top.rolloverTopTasks fullWindow }

/-- The clock is past the window start by a number of windows that an `int` can hold. -/
def WaltRq.WindowsFit (rq : WaltRq) (schedRavgWindow wallclock : ℕ) : Prop :=
  wallclock < rq.windowStart + 2 ^ 31 * schedRavgWindow

instance (rq : WaltRq) (schedRavgWindow wallclock : ℕ) :
    Decidable (rq.WindowsFit schedRavgWindow wallclock) :=
  inferInstanceAs (Decidable (_ < _))

private theorem bmod_int_of_lt (h : k < 2 ^ 31) : bmod (k : ℤ) (2 ^ 32) = k :=
  bmod_eq_of_le (by omega) (by omega)

section
variable (hW : 0 < W) (hW32 : W < 2 ^ 32) (hws : rq.windowStart ≤ t) (ht : t < 2 ^ 64) (hfit : rq.WindowsFit W t)
include hW hW32 hws ht hfit

/-- The window start goes on by whole windows. -/
theorem updateWindowStart_eq (hlat : rq.latestClock ≤ t) :
    updateWindowStart W rq t =
      some (if t - rq.windowStart < W then { rq with latestClock := t }
        else { rq with latestClock := t }.advance W ((t - rq.windowStart) / W)) := by
  unfold WaltRq.WindowsFit at hfit
  have hlt : t - rq.windowStart < 2 ^ 31 * W := by omega
  have hdelta : bmod ((t : ℤ) - rq.windowStart) (2 ^ 64) = ((t - rq.windowStart : ℕ) : ℤ) := by
    rw [bmod_eq_of_le (by omega) (by omega)]
    omega
  have hk : (t - rq.windowStart) / W < 2 ^ 31 := Nat.div_lt_of_lt_mul (by rwa [mul_comm] at hlt)
  have hnr : bmod (((t - rq.windowStart : ℕ) : ℤ) / (W : ℤ)) (2 ^ 32) = (((t - rq.windowStart) / W : ℕ) : ℤ) := by
    exact bmod_int_of_lt hk
  have hle : (t - rq.windowStart) / W * W ≤ t - rq.windowStart := div_mul_le_self _ _
  have hini : (((rq.windowStart : ℤ) + (((t - rq.windowStart) / W : ℕ) : ℤ) * (W : ℤ)) %
      2 ^ 64).toNat = rq.windowStart + (t - rq.windowStart) / W * W := by
    rw [← natCast_mul]
    omega
  unfold updateWindowStart
  simp only [hdelta, hnr]
  rw [if_neg (by omega), if_neg (by omega)]
  split
  · rw [if_pos (by omega)]
  · rw [if_neg (by omega)]
    have hfull : decide ((((t - rq.windowStart) / W : ℕ) : ℤ) > 1) =
        decide ((t - rq.windowStart) / W > 1) := by
      rw [decide_eq_decide]
      omega
    simp only [hini, hfull]
    rfl

theorem updateWindowStart_cases (h : updateWindowStart W rq t = some rq') :
    rq.latestClock ≤ t ∧ ∃ k, rq.windowStart + k * W ≤ t ∧ t < rq.windowStart + k * W + W ∧
      rq' = if k = 0 then { rq with latestClock := t } else { rq with latestClock := t }.advance W k := by
  have hlat : rq.latestClock ≤ t := by
    by_contra hlt
    simp [updateWindowStart, not_le.mp hlt] at h
  rw [updateWindowStart_eq hW hW32 hws ht hfit hlat] at h
  have hdiv := div_add_mod (t - rq.windowStart) W
  have hmod := mod_lt (t - rq.windowStart) hW
  rw [mul_comm] at hdiv
  refine ⟨hlat, (t - rq.windowStart) / W, by omega, by omega, ?_⟩
  rw [← some.inj h]
  simp only [Nat.div_eq_zero_iff, hW.ne', false_or]

end

@[simp] theorem advance_windowStart (rq : WaltRq) (W k : ℕ) :
    (rq.advance W k).windowStart = rq.windowStart + k * W := rfl

theorem updateWindowStart_bounds (hW : 0 < W) (hW32 : W < 2 ^ 32) (hws : rq.windowStart ≤ t) (ht : t < 2 ^ 64)
    (hfit : rq.WindowsFit W t) (h : updateWindowStart W rq t = some rq') :
    rq'.latestClock = t ∧ rq.windowStart ≤ rq'.windowStart ∧ rq'.windowStart ≤ t ∧
      t < rq'.windowStart + W ∧ (rq.prevWindowSize = W → rq'.prevWindowSize = W) := by
  obtain ⟨-, k, hlo, hhi, rfl⟩ := updateWindowStart_cases hW hW32 hws ht hfit h
  split
  · next h0 =>
    subst h0
    refine ⟨rfl, le_rfl, by simpa using hlo, by simpa using hhi, fun h => h⟩
  · exact ⟨rfl, le_add_right _ _, hlo, hhi, fun _ => rfl⟩

/-! ### All CPUs -/

structure WindowSys (n : ℕ) where
  schedRavgWindow : ℕ
  /-- Not in the source: the last clock reading. -/
  clock : ℕ
  rq : Fin n → WaltRq
  /-- Not in the source: the CPUs that were updated at least once. -/
  updated : Fin n → Bool

inductive WindowOp (n : ℕ)
  | update (cpu : Fin n) (wallclock : ℕ)
  /-- the end of `__walt_irq_work_locked` after a rollover, with the size asked for -/
  | windowSizeChange (thisCpu : Fin n) (wc tempSchedRavgWindow : ℕ)

variable {n tick wc temp : ℕ} {s s' : WindowSys n} {cpu : Fin n}

def WindowSys.init (n schedRavgWindow tickSchedClock : ℕ) : WindowSys n where
  schedRavgWindow := schedRavgWindow
  clock := tickSchedClock
  rq _ := .init schedRavgWindow tickSchedClock
  updated _ := false

/-- Readings never go back and fit a `u64`; a window size is a positive `unsigned int`. -/
def windowStep (s : WindowSys n) : WindowOp n → Option (WindowSys n)
  | .update cpu wallclock =>
    if s.clock ≤ wallclock ∧ wallclock < 2 ^ 64 then
      (updateWindowStart s.schedRavgWindow (s.rq cpu) wallclock).map fun rq =>
        { s with
          clock := wallclock
          rq := Function.update s.rq cpu rq
          updated := Function.update s.updated cpu true }
    else none
  | .windowSizeChange thisCpu wc temp =>
    if s.clock ≤ wc ∧ wc < 2 ^ 64 ∧ 0 < temp ∧ temp < 2 ^ 32 then
      if s.schedRavgWindow ≠ temp ∧ wc < (s.rq thisCpu).windowStart + temp ∧
          ∀ cpu, (s.rq thisCpu).windowStart = (s.rq cpu).windowStart then
        some { s with clock := wc, schedRavgWindow := temp }
      else some { s with clock := wc }
    else none

/-- Fewer than 2^31 windows have elapsed on the CPU since its window start. -/
def WindowOp.Fits (s : WindowSys n) : WindowOp n → Prop
  | .update cpu wallclock => (s.rq cpu).WindowsFit s.schedRavgWindow wallclock
  | .windowSizeChange _ _ _ => True

instance (s : WindowSys n) (op : WindowOp n) : Decidable (op.Fits s) := by
  cases op <;> unfold WindowOp.Fits <;> infer_instance

structure WindowSys.Aligned (s : WindowSys n) : Prop where
  size_pos : 0 < s.schedRavgWindow
  size_lt : s.schedRavgWindow < 2 ^ 32
  start_le : ∀ cpu, (s.rq cpu).windowStart ≤ s.clock
  latest_ge : ∀ cpu, s.updated cpu = true → (s.rq cpu).windowStart ≤ (s.rq cpu).latestClock
  grid : ∀ cpu cpu', (s.schedRavgWindow : ℤ) ∣ (s.rq cpu).windowStart - (s.rq cpu').windowStart

theorem aligned_init (hW : 0 < W) (hW32 : W < 2 ^ 32) : (WindowSys.init n W tick).Aligned where
  size_pos := hW
  size_lt := hW32
  start_le _ := le_rfl
  latest_ge _ h := absurd h (by simp [WindowSys.init])
  grid _ _ := by simp [WindowSys.init]

section
variable (hs : s.Aligned) (hfit : (WindowOp.update cpu t).Fits s) (h : windowStep s (.update cpu t) = some s')
include hs hfit h

theorem windowStep_update :
    ∃ rq' k, s' = ⟨s.schedRavgWindow, t, Function.update s.rq cpu rq',
        Function.update s.updated cpu true⟩ ∧ s.clock ≤ t ∧
      rq'.latestClock = t ∧ rq'.windowStart = (s.rq cpu).windowStart + k * s.schedRavgWindow ∧
      rq'.windowStart ≤ t ∧ t < rq'.windowStart + s.schedRavgWindow := by
  obtain ⟨hck, h⟩ := ite_none_right_eq_some.mp h
  obtain ⟨rq', hrq, rfl⟩ := map_eq_some_iff.mp h
  obtain ⟨hle, hlt⟩ := hck
  obtain ⟨-, k, hlo, hhi, hrq'⟩ := updateWindowStart_cases hs.size_pos hs.size_lt
    ((hs.start_le cpu).trans hle) hlt hfit hrq
  refine ⟨rq', k, rfl, hle, ?_⟩
  split at hrq'
  · next h0 =>
    subst h0 hrq'
    refine ⟨rfl, by simp, by simpa using hlo, by simpa using hhi⟩
  · subst hrq'
    exact ⟨rfl, rfl, hlo, hhi⟩

/-- An update keeps the windows aligned. -/
theorem aligned_update : s'.Aligned := by
  obtain ⟨rq', k, rfl, hle, hlat, hini, hlo, -⟩ := windowStep_update hs hfit h
  have hgrid : ∀ j, (s.schedRavgWindow : ℤ) ∣ rq'.windowStart - (s.rq j).windowStart := by
    intro j
    have hspl : (rq'.windowStart : ℤ) - (s.rq j).windowStart =
        ((s.rq cpu).windowStart - (s.rq j).windowStart) + k * s.schedRavgWindow := by
      rw [hini]
      push_cast
      ring
    rw [hspl]
    exact dvd_add (hs.grid cpu j) (dvd_mul_left _ _)
  refine ⟨hs.size_pos, hs.size_lt, ?_, ?_, ?_⟩
  · intro j
    by_cases hj : j = cpu
    · subst hj
      simpa using hlo
    · simpa [hj] using (hs.start_le j).trans hle
  · intro j hj
    by_cases hjc : j = cpu
    · subst hjc
      simpa [hlat] using hlo
    · simp only [ne_eq, hjc, not_false_eq_true, Function.update_of_ne] at hj ⊢
      exact hs.latest_ge j hj
  · intro i j
    by_cases hi : i = cpu <;> by_cases hj : j = cpu
    · subst hi hj
      simp
    · subst hi
      simpa [hj] using hgrid j
    · subst hj
      have := (dvd_sub_comm).mp (hgrid i)
      simpa [hi] using this
    · simpa [hi, hj] using hs.grid i j

end

/-- The guard of a size change: all starts coincide, so the new grid is theirs too. -/
theorem aligned_windowSizeChange (hs : s.Aligned) (h : windowStep s (.windowSizeChange cpu wc temp) = some s') :
    s'.Aligned := by
  obtain ⟨⟨hle, -, hpos, hlt⟩, h⟩ := ite_none_right_eq_some.mp h
  split at h
  · next hgd =>
    cases h
    refine ⟨hpos, hlt, fun j => (hs.start_le j).trans hle, hs.latest_ge, ?_⟩
    intro i j
    rw [← hgd.2.2 i, ← hgd.2.2 j, sub_self]
    exact dvd_zero _
  · cases h
    exact { hs with start_le := fun j => (hs.start_le j).trans hle }

theorem aligned_step (s : WindowSys n) (op : WindowOp n) (s' : WindowSys n) (hs : s.Aligned)
    (hfit : op.Fits s) (h : windowStep s op = some s') : s'.Aligned := by
  cases op with
  | update => exact aligned_update hs hfit h
  | windowSizeChange => exact aligned_windowSizeChange hs h

/-- In every run in which fewer than 2^31 windows elapse on a CPU between its updates: the window start is at
most the latest clock on each CPU updated so far, the starts of any two CPUs differ by a multiple of the
window size, and after any update the latest clock is within a window of the start. -/
theorem window_alignment (W tick : ℕ) (hW : 0 < W) (hW32 : W < 2 ^ 32) (ops : List (WindowOp n))
    {s : WindowSys n}
    (hfit : Meets windowStep (fun s op => op.Fits s) (WindowSys.init n W tick) ops)
    (hrun : run windowStep (WindowSys.init n W tick) ops = some s) :
    (∀ cpu, s.updated cpu = true → (s.rq cpu).windowStart ≤ (s.rq cpu).latestClock) ∧
      (∀ cpu cpu', (s.schedRavgWindow : ℤ) ∣ (s.rq cpu).windowStart - (s.rq cpu').windowStart) ∧
      ∀ cpu t s', (WindowOp.update cpu t).Fits s → windowStep s (.update cpu t) = some s' →
        (s'.rq cpu).latestClock < (s'.rq cpu).windowStart + s'.schedRavgWindow := by
  have hs : s.Aligned := run_inv aligned_step (aligned_init hW hW32) hfit hrun
  refine ⟨hs.latest_ge, hs.grid, ?_⟩
  intro cpu t s' hfit' h
  obtain ⟨rq', k, rfl, -, hlat, -, -, hhi⟩ := windowStep_update hs hfit' h
  simpa [hlat] using hhi

/-- Two CPUs with a window of 16 ms; one is three windows ahead when the size drops to 8 ms. -/
theorem window_alignment_two_cpus :
    ∃ s : WindowSys 2,
      run windowStep (WindowSys.init 2 16000000 1000)
        [.update 0 50000000, .update 1 50000000, .windowSizeChange 0 50000001 8000000, .update 1 60000000] = some s ∧
      s.schedRavgWindow = 8000000 ∧
      (s.schedRavgWindow : ℤ) ∣ (s.rq 0).windowStart - (s.rq 1).windowStart :=
  ⟨_, rfl, rfl, (window_alignment 16000000 1000 (by decide) (by decide)
    [.update 0 50000000, .update 1 50000000, .windowSizeChange 0 50000001 8000000,
      .update 1 60000000] (by decide) rfl).2.1 0 1⟩

/-- Before its first update a CPU has a window start but no latest clock, and after 2^32 elapsed windows the
truncated count leaves the start behind. -/
theorem window_alignment_fails :
    ((WindowSys.init 1 8000000 1000).rq 0).latestClock <
        ((WindowSys.init 1 8000000 1000).rq 0).windowStart ∧
      ∃ s : WindowSys 1,
        run windowStep (WindowSys.init 1 8000000 1000) [.update 0 (1000 + 2 ^ 32 * 8000000)] =
          some s ∧
        (s.rq 0).windowStart + s.schedRavgWindow ≤ (s.rq 0).latestClock :=
  ⟨by decide, _, rfl, by decide⟩

end VendorKernel.Walt
