import Mathlib.Algebra.Order.Ring.Int
import Mathlib.Tactic.LinearCombination
import VendorKernel.Walt.Migration
import VendorKernel.Walt.WindowAlignment

/-! Where a task stands relative to the windows of its runqueue: in the current one, or behind
it since its last update. A task between two runqueues stands on the common grid. -/
namespace VendorKernel.Walt

open Nat Function Int

variable {n x k t : ℕ}

/-! ### What one update does to the two windows -/

/-- The boost is at most twofold and never makes time negative. -/
def WaltTask.BoostOk (p : WaltTask n) : Prop :=
  -1024 ≤ p.boostedTaskLoad ∧ p.boostedTaskLoad ≤ 1024

theorem scaleExecTime_le_double {rq : WaltRq} {p : WaltTask n} (hsc : rq.taskExecScale ≤ 1024)
    (hbo : p.BoostOk) (delta : ℕ) : scaleExecTime delta rq p ≤ 2 * delta := by
  obtain ⟨hlo, hhi⟩ := hbo
  have hmul : delta * rq.taskExecScale ≤ delta * 1024 := mul_le_mul_left delta hsc
  unfold scaleExecTime
  dsimp only
  generalize hd : delta * rq.taskExecScale % 2 ^ 64 / 1024 = d
  split
  · have hnn : 0 ≤ (d : ℤ) * (1024 + p.boostedTaskLoad) :=
      mul_nonneg (by omega) (by omega)
    have hup : (d : ℤ) * (1024 + p.boostedTaskLoad) ≤ d * 2048 :=
      mul_le_mul_of_nonneg_left (by omega) (by omega)
    omega
  · omega

section
variable {rq : WaltRq} {cpu : Fin n} {p : WaltTask n} {e : RavgEvent}

theorem toU32_of_lt (h : x < 2 ^ 32) : toU32 x = x := mod_eq_of_lt h

theorem updateCpuBusyTime_same (cpu : Fin n) (hidle : p.idle = false)
    (hsc : rq.taskExecScale ≤ 1024) (hbo : p.BoostOk) (hsame : rq.windowStart ≤ p.markStart)
    (hcurr : p.currWindow < 2 ^ 32) :
    let p' := (updateCpuBusyTime rq cpu p e).2
    p'.windowStart = p.windowStart ∧ p'.prevWindow = p.prevWindow ∧
      ∃ d ≤ 2 * (e.wallclock - p.markStart), p'.currWindow = toU32 (p.currWindow + d) := by
  have hnew : newWindow rq p = false := by simpa [newWindow] using hsame
  have hen : enterWindow rq p = p := by simp [enterWindow, hnew]
  simp only [updateCpuBusyTime, hidle, hen, hnew, Bool.false_eq_true, if_false, chargeBusyTime, if_true]
  split
  · exact ⟨rfl, rfl, 0, zero_le _, (toU32_of_lt hcurr).symm⟩
  · simp only [true_or, or_true, if_true]
    exact ⟨rfl, rfl, _, scaleExecTime_le_double hsc hbo _, rfl⟩

theorem enterWindow_new (hidle : p.idle = false) (hnew : p.markStart < rq.windowStart) :
    (enterWindow rq p).idle = false ∧ (enterWindow rq p).markStart = p.markStart ∧
      (enterWindow rq p).boostedTaskLoad = p.boostedTaskLoad ∧
      (enterWindow rq p).windowStart = rq.windowStart ∧ (enterWindow rq p).currWindow = 0 ∧
      (fullWindow rq p = false → (enterWindow rq p).prevWindow = p.currWindow) := by
  simp only [enterWindow, newWindow, hnew, decide_true, if_true, hidle, Bool.false_eq_true,
    if_false, rolloverTaskWindow, true_and]
  intro hfull
  simp [hfull]

theorem chargeSplit_windows (cpu : Fin n) (newTask full : Bool) (t : ℕ)
    (hsc : rq.taskExecScale ≤ 1024) (hbo : p.BoostOk) :
    let p' := (chargeSplit rq cpu p newTask t full true).2
    p'.windowStart = p.windowStart ∧
      (∃ d ≤ 2 * (t - rq.windowStart), p'.currWindow = toU32 d) ∧
      ∃ d ≤ 2 * (rq.windowStart - p.markStart), full = false → p'.prevWindow = toU32 (p.prevWindow + d) := by
  have hle := scaleExecTime_le_double hsc hbo
  cases full with
  | false => exact ⟨rfl, ⟨_, hle _, rfl⟩, _, hle _, fun _ => rfl⟩
  | true => exact ⟨rfl, ⟨_, hle _, rfl⟩, 0, zero_le _, fun h => absurd h (by decide)⟩

/-- Across a window boundary the current load becomes the previous one, unless a full window has passed, and
both get the charges. -/
theorem updateCpuBusyTime_new (cpu : Fin n) (hidle : p.idle = false)
    (hsc : rq.taskExecScale ≤ 1024) (hbo : p.BoostOk) (hnew : p.markStart < rq.windowStart)
    (hcurr : p.currWindow < 2 ^ 32) :
    let p' := (updateCpuBusyTime rq cpu p e).2
    p'.windowStart = rq.windowStart ∧
      (∃ d ≤ 2 * (e.wallclock - rq.windowStart), p'.currWindow = toU32 d) ∧
      ∃ d ≤ 2 * (rq.windowStart - p.markStart),
        fullWindow rq p = false → p'.prevWindow = toU32 (p.currWindow + d) := by
  have hnew' : newWindow rq p = true := by simpa [newWindow] using hnew
  have hchr : (updateCpuBusyTime rq cpu p e).2 =
      (chargeBusyTime rq cpu (enterWindow rq p) e true (fullWindow rq p)).2 := by
    simp [updateCpuBusyTime, hidle, hnew']
  obtain ⟨hidle', hmark, hbo', hws, hzero, hprev⟩ := enterWindow_new hidle hnew
  simp only [hchr, chargeBusyTime, hidle', Bool.false_eq_true, Bool.true_eq_false, if_false, if_true, true_or,
    or_true, Bool.not_false, ite_self]
  split
  · refine ⟨hws, ⟨0, zero_le _, hzero⟩, 0, zero_le _, ?_⟩
    intro hfull
    exact (hprev hfull).trans (toU32_of_lt hcurr).symm
  · have hok : (enterWindow rq p).BoostOk := by rwa [WaltTask.BoostOk, hbo']
    obtain ⟨hws', hd, d, hle, hd'⟩ := chargeSplit_windows cpu
      (isNewTask (enterWindow rq p)) (fullWindow rq p) e.wallclock hsc hok
    refine ⟨hws'.trans hws, hd, d, hmark ▸ hle, ?_⟩
    intro hfull
    rw [hd' hfull, hprev hfull]

theorem updateCpuBusyTime_top :
    (updateCpuBusyTime rq cpu p e).1.top = if p.idle then rq.top else
      rq.top.updateTopTasks p.currWindow (updateCpuBusyTime rq cpu p e).2.currWindow
        (updateCpuBusyTime rq cpu p e).2.prevWindow (newWindow rq p) (fullWindow rq p) := by
  obtain ⟨_, _, _, _, _, _, h⟩ :=
    chargeBusyTime_frame rq cpu (enterWindow rq p) e (newWindow rq p) (fullWindow rq p)
  cases hidle : p.idle <;> simp [updateCpuBusyTime, hidle, h]

end

/-! ### The windows of all runqueues -/

/-- What a task's place depends on: the window size, the clock, and each runqueue's window start
and previous window size. -/
structure Windows (n : ℕ) where
  window : ℕ
  clock : ℕ
  start : Fin n → ℕ
  size : Fin n → ℕ

/-- The starts are on one grid behind the clock, and twice a window fits in 32 bits. -/
structure Windows.Ok (w : Windows n) : Prop where
  window_pos : 0 < w.window
  window_le : w.window ≤ 2 ^ 30
  start_pos : ∀ i, 0 < w.start i
  start_le : ∀ i, w.start i ≤ w.clock
  size_le : ∀ i, w.size i ≤ 2 ^ 30
  grid : ∀ i j, (w.window : ℤ) ∣ w.start i - w.start j

def Windows.roll (w : Windows n) (cpu : Fin n) (k t : ℕ) : Windows n where
  window := w.window
  clock := t
  start := update w.start cpu (w.start cpu + k * w.window)
  size := if k = 0 then w.size else update w.size cpu w.window

/-- The window start goes on along the grid. -/
theorem Windows.Ok.roll {w : Windows n} (h : w.Ok) {cpu : Fin n} (hle : w.clock ≤ t)
    (hini : w.start cpu + k * w.window ≤ t) : (w.roll cpu k t).Ok := by
  have hgrid : ∀ i, ∃ c, ((w.roll cpu k t).start i : ℤ) = w.start i + c * w.window := by
    intro i
    by_cases hi : i = cpu
    · subst hi
      exact ⟨k, by simp [Windows.roll]⟩
    · exact ⟨0, by simp [Windows.roll, hi]⟩
  refine ⟨h.window_pos, h.window_le, ?_, ?_, ?_, ?_⟩
  · intro i
    by_cases hi : i = cpu
    · subst hi
      simpa [Windows.roll] using .inl (h.start_pos i)
    · simpa [Windows.roll, hi] using h.start_pos i
  · intro i
    by_cases hi : i = cpu
    · subst hi
      simpa [Windows.roll] using hini
    · simpa [Windows.roll, hi] using (h.start_le i).trans hle
  · intro i
    have hi := h.size_le i
    have hw := h.window_le
    simp only [Windows.roll]
    split
    · exact hi
    · by_cases hic : i = cpu
      · subst hic
        simpa using hw
      · simpa [hic] using hi
  · intro i j
    obtain ⟨a, ha⟩ := hgrid i
    obtain ⟨b, hb⟩ := hgrid j
    obtain ⟨c, hc⟩ := h.grid i j
    refine ⟨c + a - b, ?_⟩
    rw [ha, hb]
    dsimp only [Windows.roll]
    linear_combination hc

/-- A task with entries is in the current window or was updated before; a full window will be found exactly when they
are gone. -/
def Recorded (w : Windows n) (p : WaltTask n) : Prop :=
  p.windowStart = w.start p.cpu ∧ w.start p.cpu ≤ p.markStart ∧
      p.markStart < w.start p.cpu + w.window ∨
    p.markStart < w.start p.cpu ∧ p.windowStart < w.start p.cpu ∧
      (p.currWindow ≠ 0 → (w.start p.cpu - p.markStart < w.size p.cpu ↔ p.windowStart + w.size p.cpu = w.start p.cpu))

/-- A task between two runqueues is on the grid, or behind every runqueue. -/
def OnGrid (w : Windows n) (p : WaltTask n) : Prop :=
  (∃ i, p.windowStart ≤ w.start i) ∧
    (p.markStart < p.windowStart + w.window ∧
        (∀ i, (w.window : ℤ) ∣ w.start i - p.windowStart) ∨
      ∀ i, p.markStart < w.start i)

structure Placed (w : Windows n) (p : WaltTask n) : Prop where
  mark_le : p.markStart ≤ w.clock
  unmarked : p.markStart = 0 → p.windowStart = 0 ∧ p.currWindow = 0 ∧ p.prevWindow = 0
  marked : p.markStart ≠ 0 → p.windowStart ≠ 0
  start_le : p.windowStart ≤ p.markStart
  curr_le : p.currWindow ≤ 2 * (p.markStart - p.windowStart)
  curr_lt : p.currWindow < 2 ^ 32
  recorded : p.enqueueAfterMigration = 0 → Recorded w p
  onGrid : p.enqueueAfterMigration ≠ 0 → p.markStart ≠ 0 ∧ OnGrid w p
  boost : p.BoostOk

section
variable {w : Windows n} {p : WaltTask n} {cpu : Fin n} {k t : ℕ}

theorem Windows.roll_start_le (w : Windows n) (cpu : Fin n) (k t : ℕ) (i : Fin n) :
    w.start i ≤ (w.roll cpu k t).start i := by
  by_cases hi : i = cpu
  · subst hi
    simp [Windows.roll]
  · simp [Windows.roll, hi]

/-- Whatever was in the current window is one window behind after one, and out of reach after
more. -/
theorem Recorded.roll (hok : w.Ok) (h : Recorded w p)
    (hcurr : p.currWindow ≤ 2 * (p.markStart - p.windowStart)) : Recorded (w.roll cpu k t) p := by
  have hpos := hok.window_pos
  by_cases hcpu : p.cpu = cpu
  · subst hcpu
    rcases Nat.eq_zero_or_pos k with rfl | hk
    · simpa [Recorded, Windows.roll] using h
    · have htwo : k ≠ 1 → 2 * w.window ≤ k * w.window := fun h1 =>
        mul_le_mul_right _ (by omega)
      have hk1 : k = 1 → k * w.window = w.window := by
        rintro rfl
        exact one_mul _
      simp only [Recorded, Windows.roll, hk.ne', if_false, update_self] at h ⊢
      right
      rcases h with ⟨hws, hlo, hhi⟩ | ⟨hlt, hws, -⟩
      · by_cases h1 : k = 1
        · omega
        · omega
      · exact ⟨by omega, by omega, fun _ => by omega⟩
  · have hsize : (w.roll cpu k t).size p.cpu = w.size p.cpu := by
      simp only [Windows.roll]
      split
      · rfl
      · rw [update_of_ne hcpu]
    have hini : (w.roll cpu k t).start p.cpu = w.start p.cpu := by
      simp [Windows.roll, hcpu]
    simp only [Recorded, hsize, hini]
    exact h

theorem OnGrid.roll (h : OnGrid w p) : OnGrid (w.roll cpu k t) p := by
  obtain ⟨⟨i, hi⟩, hgrid⟩ := h
  refine ⟨⟨i, hi.trans (w.roll_start_le cpu k t i)⟩, ?_⟩
  rcases hgrid with ⟨hlt, hdvd⟩ | hbeh
  · refine .inl ⟨hlt, ?_⟩
    intro i
    by_cases hi : i = cpu
    · subst hi
      have hsum : ((w.start i + k * w.window : ℕ) : ℤ) - p.windowStart =
          (w.start i - p.windowStart) + k * w.window := by
        push_cast
        ring
      simp only [Windows.roll, update_self, hsum]
      exact dvd_add (hdvd i) (dvd_mul_left _ _)
    · simpa [Windows.roll, hi] using hdvd i
  · exact .inr fun i => (hbeh i).trans_le (w.roll_start_le cpu k t i)

theorem Placed.roll (hok : w.Ok) (h : Placed w p) (hle : w.clock ≤ t) : Placed (w.roll cpu k t) p :=
  ⟨h.mark_le.trans hle, h.unmarked, h.marked, h.start_le, h.curr_le, h.curr_lt,
    fun h0 => (h.recorded h0).roll hok h.curr_le,
    fun h0 => ⟨(h.onGrid h0).1, (h.onGrid h0).2.roll⟩, h.boost⟩

end

section
variable {w : Windows n} {p : WaltTask n} {t : ℕ}

section
variable (hlt : w.clock < w.start p.cpu + w.window)
include hlt

theorem Placed.windowStart_eq (h : Placed w p) (hmark : w.start p.cpu ≤ p.markStart) :
    p.windowStart = w.start p.cpu := by
  by_cases h0 : p.enqueueAfterMigration = 0
  · rcases h.recorded h0 with ⟨hws, -⟩ | ⟨hbeh, -⟩
    · exact hws
    · omega
  · obtain ⟨-, -, hgrid⟩ := h.onGrid h0
    rcases hgrid with ⟨hm, hdvd⟩ | hbeh
    · -- two grid points less than a window apart
      have hle := h.start_le
      have hck := h.mark_le
      have hzero := eq_zero_of_abs_lt_dvd (hdvd p.cpu) (by rw [abs_lt]; omega)
      omega
    · have := hbeh p.cpu
      omega

theorem placed_of_entered (hok : w.Ok) (hmark : p.markStart = w.clock) (hws : p.windowStart = w.start p.cpu)
    (hcurr : p.currWindow ≤ 2 * (w.clock - w.start p.cpu)) (hbo : p.BoostOk) : Placed w p := by
  have hpos := hok.start_pos p.cpu
  have hle := hok.start_le p.cpu
  have hwin := hok.window_le
  refine ⟨hmark.le, fun h0 => by omega, fun _ => by omega, by omega, by omega, by omega,
    fun _ => .inl ⟨hws, by omega, by omega⟩, fun _ => ⟨by omega, ⟨p.cpu, hws.le⟩, .inl ⟨by omega, ?_⟩⟩,
    hbo⟩
  intro i
  rw [hws]
  exact hok.grid i p.cpu

/-- An update of a marked task ends up in the window, no load wraps, and within the window only the current
load grows. -/
theorem Placed.update (rq : WaltRq) {e : RavgEvent} (hok : w.Ok) (h : Placed w p) (hidle : p.idle = false)
    (hrq : rq.windowStart = w.start p.cpu) (hsize : rq.prevWindowSize = w.size p.cpu) (hsc : rq.taskExecScale ≤ 1024)
    (hck : e.wallclock = w.clock) :
    let p' := (updateCpuBusyTime rq p.cpu p e).2
    p'.windowStart = w.start p.cpu ∧ p'.currWindow ≤ 2 * (w.clock - w.start p.cpu) ∧
      (newWindow rq p = false → p.windowStart = w.start p.cpu ∧ p'.prevWindow = p.prevWindow ∧
        p.currWindow ≤ p'.currWindow) ∧
      (p.enqueueAfterMigration = 0 → newWindow rq p = true → fullWindow rq p = false →
        p.currWindow ≤ p'.prevWindow) := by
  have hwin := hok.window_le
  have hmarkLe := h.mark_le
  have hcurr := h.curr_le
  by_cases hnew : p.markStart < rq.windowStart
  · obtain ⟨hws, ⟨d, hd, hcurr'⟩, d', hd', hprev'⟩ :=
      updateCpuBusyTime_new (e := e) p.cpu hidle hsc h.boost hnew h.curr_lt
    have hd32 : toU32 d = d := toU32_of_lt (by omega)
    refine ⟨hws.trans hrq, by omega, ?_, ?_⟩
    · intro hfalse
      simp [newWindow, hnew] at hfalse
    · intro h0 _ hfull
      rw [hprev' hfull]
      have hshort : rq.windowStart - p.markStart < rq.prevWindowSize := by
        simpa [fullWindow, newWindow, hnew] using hfull
      have hsizeLe := hok.size_le p.cpu
      -- what is left of the old window, after what was charged in it
      have hsum : p.currWindow + d' < 2 ^ 32 := by
        rcases h.recorded h0 with ⟨hQ, -⟩ | ⟨-, -, hback⟩
        · omega
        · by_cases hzero : p.currWindow = 0
          · omega
          · omega
      rw [toU32_of_lt hsum]
      omega
  · obtain ⟨hws, hprev, d, hd, hcurr'⟩ :=
      updateCpuBusyTime_same (e := e) p.cpu hidle hsc h.boost (not_lt.mp hnew) h.curr_lt
    have hQ := h.windowStart_eq hlt (by omega)
    have hd32 : toU32 (p.currWindow + d) = p.currWindow + d := toU32_of_lt (by omega)
    refine ⟨hws.trans hQ, by omega, fun _ => ⟨hQ, hprev, by omega⟩, ?_⟩
    intro _ htrue
    simp [newWindow, hnew] at htrue

end

end

end VendorKernel.Walt
