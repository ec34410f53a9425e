import VendorKernel.Walt.WindowAlignment

/-! No over-accounting on one CPU: the time charged in a window never exceeds the time that
has passed in it, over every sequence of scheduler events. -/
namespace VendorKernel.Walt

open Machine BusySums Function Option WaltRq Nat

variable {n : ℕ}

namespace WaltRq

def currTotal (rq : WaltRq) : ℕ := rq.sums.currRunnableSum + rq.grpTime.currRunnableSum

def prevTotal (rq : WaltRq) : ℕ := rq.sums.prevRunnableSum + rq.grpTime.prevRunnableSum

variable (rq : WaltRq) (grp : Bool) (s : BusySums)

theorem totals_setSumsOf :
    (rq.setSumsOf grp s).currTotal + (rq.sumsOf grp).currRunnableSum = rq.currTotal + s.currRunnableSum ∧
      (rq.setSumsOf grp s).prevTotal + (rq.sumsOf grp).prevRunnableSum = rq.prevTotal + s.prevRunnableSum := by
  cases grp <;> simp [setSumsOf, sumsOf, currTotal, prevTotal] <;> omega

end WaltRq

theorem scaleExecTime_le {rq : WaltRq} {p : WaltTask n} (hsc : rq.taskExecScale ≤ 1024)
    (hbo : p.loadBoost = 0) (delta : ℕ) : scaleExecTime delta rq p ≤ delta := by
  have hmul : delta * rq.taskExecScale ≤ delta * 1024 := mul_le_mul_left delta hsc
  simp only [scaleExecTime, hbo, ne_eq, not_true_eq_false, false_and, if_false]
  omega

section
variable {rq : WaltRq} {p : WaltTask n} {cpu : Fin n} {t irqtime : ℕ} {newTask full counters : Bool} {e : RavgEvent}

theorem totals_addCurr (rq : WaltRq) (grp : Bool) (delta : ℕ) (newTask : Bool) :
    (rq.setSumsOf grp ((rq.sumsOf grp).addCurr delta newTask)).currTotal = rq.currTotal + delta ∧
      (rq.setSumsOf grp ((rq.sumsOf grp).addCurr delta newTask)).prevTotal = rq.prevTotal := by
  have h := rq.totals_setSumsOf grp ((rq.sumsOf grp).addCurr delta newTask)
  simp only [addCurr] at h ⊢
  omega

theorem totals_chargeSplit :
    (chargeSplit rq cpu p newTask t full counters).1.currTotal =
        rq.currTotal + scaleExecTime (t - rq.windowStart) rq p ∧
      (chargeSplit rq cpu p newTask t full counters).1.prevTotal =
        rq.prevTotal + if full then scaleExecTime rq.prevWindowSize rq p
          else scaleExecTime (rq.windowStart - p.markStart) rq p := by
  have h := rq.totals_setSumsOf p.grp (((rq.sumsOf p.grp).addPrev (if full = true then
    scaleExecTime rq.prevWindowSize rq p else scaleExecTime (rq.windowStart - p.markStart) rq p)
      newTask).addCurr (scaleExecTime (t - rq.windowStart) rq p) newTask)
  simp only [chargeSplit, addCurr, addPrev] at h ⊢
  omega

section
variable (hsc : rq.taskExecScale ≤ 1024)
include hsc

section
variable (hbo : p.loadBoost = 0)
include hbo

theorem chargeIrq_totals (hirq : irqtime ≤ t - p.markStart) (hnew : p.markStart < rq.windowStart)
    (ht : rq.windowStart ≤ t) :
    (chargeIrq rq p t irqtime).currTotal ≤ rq.currTotal + (t - rq.windowStart) ∧
      (chargeIrq rq p t irqtime).prevTotal ≤ rq.prevTotal + min (rq.windowStart - p.markStart) rq.prevWindowSize := by
  have hle := scaleExecTime_le hsc hbo
  unfold chargeIrq
  dsimp only
  split
  · have hirq' := hle irqtime
    rw [(totals_addCurr ..).1, (totals_addCurr ..).2]
    omega
  · next hspan =>
    have hprev := hle (min (rq.windowStart - (t - irqtime)) rq.prevWindowSize)
    have hcurr := hle (t - rq.windowStart)
    have htot := rq.totals_setSumsOf p.grp ((rq.sumsOf p.grp).addPrev
      (scaleExecTime (min (rq.windowStart - (t - irqtime)) rq.prevWindowSize) rq p) false)
    simp only [addPrev, addCurr, currTotal, prevTotal] at htot ⊢
    omega

theorem chargeSplit_totals (hnew : p.markStart < rq.windowStart) :
    (chargeSplit rq cpu p newTask t (fullWindow rq p) counters).1.currTotal ≤
        rq.currTotal + (t - rq.windowStart) ∧
      (chargeSplit rq cpu p newTask t (fullWindow rq p) counters).1.prevTotal ≤
        rq.prevTotal + min (rq.windowStart - p.markStart) rq.prevWindowSize := by
  have hle := scaleExecTime_le hsc hbo
  have h1 := hle (t - rq.windowStart)
  have h2 := hle rq.prevWindowSize
  have h3 := hle (rq.windowStart - p.markStart)
  rw [totals_chargeSplit.1, totals_chargeSplit.2]
  by_cases hfull : rq.prevWindowSize ≤ rq.windowStart - p.markStart
  · simp only [fullWindow, newWindow, hnew, hfull, decide_true, Bool.and_self, if_true]
    omega
  · simp only [fullWindow, newWindow, hnew, hfull, decide_true, decide_false, Bool.and_false,
      Bool.false_eq_true, if_false]
    omega

section
variable (hirq : e.irqtime ≤ e.wallclock - p.markStart) (ht : rq.windowStart ≤ e.wallclock)
include hirq ht

/-- What one charge adds: at most the time since the mark, split at the window start, and to
the previous window at most a window. -/
theorem chargeBusyTime_totals :
    (chargeBusyTime rq cpu p e (newWindow rq p) (fullWindow rq p)).1.currTotal ≤
        rq.currTotal + (e.wallclock - max p.markStart rq.windowStart) ∧
      (chargeBusyTime rq cpu p e (newWindow rq p) (fullWindow rq p)).1.prevTotal ≤
        rq.prevTotal + min (rq.windowStart - p.markStart) rq.prevWindowSize := by
  unfold chargeBusyTime
  split
  · dsimp only
    omega
  · split
    · next hsame =>
      have hm : ¬p.markStart < rq.windowStart := by simpa [newWindow] using hsame
      have hd := scaleExecTime_le hsc hbo
        (if e.irqtime = 0 ∨ p.idle = false ∨ e.iowait = true then e.wallclock - p.markStart else e.irqtime)
      have hd' : (if e.irqtime = 0 ∨ p.idle = false ∨ e.iowait = true then
          e.wallclock - p.markStart else e.irqtime) ≤ e.wallclock - p.markStart := by
        split <;> omega
      rw [(totals_addCurr ..).1, (totals_addCurr ..).2]
      omega
    · next hnew =>
      have hm : p.markStart < rq.windowStart := by simpa [newWindow] using hnew
      rw [max_eq_right hm.le]
      split
      · exact chargeSplit_totals hsc hbo hm
      · split
        · exact chargeSplit_totals hsc hbo hm
        · exact chargeIrq_totals hsc hbo hirq hm ht

/-- No more is charged than the time since the mark. -/
theorem updateCpuBusyTime_totals :
    (updateCpuBusyTime rq cpu p e).1.currTotal ≤
        rq.currTotal + (e.wallclock - max p.markStart rq.windowStart) ∧
      (updateCpuBusyTime rq cpu p e).1.prevTotal ≤
        rq.prevTotal + min (rq.windowStart - p.markStart) rq.prevWindowSize := by
  obtain ⟨w, c, v, cc, vc, a, hp⟩ := enterWindow_frame rq p
  have hmark : (enterWindow rq p).markStart = p.markStart := by rw [hp]
  have htot := @chargeBusyTime_totals n rq (enterWindow rq p) cpu e hsc
    (by rw [hp]; exact hbo) (by rw [hmark]; exact hirq) ht
  have hnew : newWindow rq (enterWindow rq p) = newWindow rq p := by simp only [newWindow, hmark]
  have hfull : fullWindow rq (enterWindow rq p) = fullWindow rq p := by
    simp only [fullWindow, hnew, hmark]
  rw [hnew, hfull, hmark] at htot
  unfold updateCpuBusyTime
  dsimp only
  split <;> exact htot

end

end

end

theorem updateCpuBusyTime_idle_totals (h : accountBusyForCpuTime p e = false) :
    (updateCpuBusyTime rq cpu p e).1.currTotal = rq.currTotal ∧
      (updateCpuBusyTime rq cpu p e).1.prevTotal = rq.prevTotal := by
  rw [updateCpuBusyTime_uncharged cpu h]
  split <;> exact ⟨rfl, rfl⟩

end

/-! ### The running task's mark -/

/-- The time charged so far, seen with the mark `m` of the running task. -/
structure Charged (W : ℕ) (rq : WaltRq) (m : ℕ) : Prop where
  elapsed : rq.currTotal ≤ rq.latestClock - rq.windowStart
  window : rq.prevTotal ≤ W
  curr : m ≠ 0 → rq.currTotal ≤ m - rq.windowStart
  prev : m ≠ 0 → rq.prevTotal + min (rq.windowStart - m) W ≤ W

section
variable {W t m : ℕ} {rq rq' : WaltRq}

theorem prevTotal_advance (rq : WaltRq) (W k : ℕ) :
    (rq.advance W k).prevTotal = if k > 1 then 0 else rq.currTotal := by
  by_cases h : k > 1 <;>
    simp [advance, rolloverCpuWindow, rollover, prevTotal, currTotal, h]

/-- Rolling the window over before the running task is charged: the rest of the window is still free. -/
theorem Charged.updateWindowStart (h : Charged W rq m) (hW : 0 < W) (hW32 : W < 2 ^ 32)
    (hws : rq.windowStart ≤ t) (ht : t < 2 ^ 64) (hfit : rq.WindowsFit W t)
    (hlat : rq.latestClock < rq.windowStart + W) (hm : m < rq.windowStart + W)
    (hupd : Walt.updateWindowStart W rq t = some rq') : Charged W rq' m := by
  obtain ⟨hle, k, hlo, hhi, rfl⟩ := updateWindowStart_cases hW hW32 hws ht hfit hupd
  have h1 := h.elapsed
  split
  · refine ⟨?_, h.window, h.curr, h.prev⟩
    change rq.currTotal ≤ t - rq.windowStart
    omega
  · have hc : ({ rq with latestClock := t } : WaltRq).currTotal = rq.currTotal := rfl
    refine ⟨zero_le _, ?_, fun _ => zero_le _, ?_⟩
    · rw [prevTotal_advance]
      split <;> omega
    · intro hm0
      rw [prevTotal_advance]
      have h3 := h.curr hm0
      split
      · omega
      · next hk =>
        obtain rfl : k = 1 := by omega
        change rq.currTotal + min (rq.windowStart + 1 * W - m) W ≤ W
        omega

theorem Charged.congr (h : Charged W rq m) (hcurr : rq'.currTotal = rq.currTotal)
    (hprev : rq'.prevTotal = rq.prevTotal) (hws : rq'.windowStart = rq.windowStart)
    (hlat : rq'.latestClock = rq.latestClock) : Charged W rq' m := by
  constructor <;> simp only [hcurr, hprev, hws, hlat]
  exacts [h.elapsed, h.window, h.curr, h.prev]

theorem Charged.charge (h : Charged W rq m) (hm : m ≠ 0) (hmt : m ≤ t) (hws : rq.windowStart ≤ t)
    (hini : rq'.windowStart = rq.windowStart) (hlat : rq'.latestClock = t)
    (hcurr : rq'.currTotal ≤ rq.currTotal + (t - max m rq.windowStart))
    (hprev : rq'.prevTotal ≤ rq.prevTotal + min (rq.windowStart - m) W) : Charged W rq' t := by
  have h1 := h.curr hm
  have h2 := h.prev hm
  have htotal : rq'.currTotal ≤ t - rq'.windowStart := by omega
  refine ⟨by omega, by omega, fun _ => htotal, fun _ => by omega⟩

end

/-! ### One CPU -/

structure CpuSys (τ : Type*) (n : ℕ) where
  schedRavgWindow : ℕ
  cpu : Fin n
  rq : WaltRq
  task : τ → WaltTask n
  curr : τ
  /-- Not in the source: the last clock reading. -/
  clock : ℕ

structure Reading where
  runnable : Bool
  iowait : Bool
  taskExecScale : ℕ
  scale_le : taskExecScale ≤ 1024

variable {τ : Type*}

structure CpuSys.Accounted (s : CpuSys τ n) : Prop where
  size_pos : 0 < s.schedRavgWindow
  size_lt : s.schedRavgWindow < 2 ^ 32
  size_eq : s.rq.prevWindowSize = s.schedRavgWindow
  start_le : s.rq.windowStart ≤ s.clock
  latest_lt : s.rq.latestClock < s.rq.windowStart + s.schedRavgWindow
  mark_le : ∀ q, (s.task q).markStart ≤ s.clock
  mark_lt : ∀ q, (s.task q).markStart < s.rq.windowStart + s.schedRavgWindow
  unmarked : s.rq.windowStart = 0 → ∀ q, (s.task q).markStart = 0
  no_boost : ∀ q, (s.task q).loadBoost = 0
  charged : Charged s.schedRavgWindow s.rq (s.task s.curr).markStart

theorem CpuSys.Accounted.switch {s : CpuSys τ n} (hs : s.Accounted) {next : τ}
    (hcurr : s.rq.windowStart ≠ 0 → (s.task s.curr).markStart = s.clock)
    (hnext : s.rq.windowStart ≠ 0 → (s.task next).markStart = s.clock) :
    CpuSys.Accounted { s with curr := next } := by
  refine { hs with charged := ?_ }
  have hmark : (s.task next).markStart = (s.task s.curr).markStart := by
    by_cases h0 : s.rq.windowStart = 0
    · rw [hs.unmarked h0, hs.unmarked h0]
    · rw [hcurr h0, hnext h0]
  rw [hmark]
  exact hs.charged

def CpuSys.init (schedRavgWindow tickSchedClock : ℕ) (cpu : Fin n) (idle grp : τ → Bool) (curr : τ) : CpuSys τ n where
  schedRavgWindow := schedRavgWindow
  cpu := cpu
  rq := .init schedRavgWindow tickSchedClock
  task q := .init (idle q) cpu (grp q)
  curr := curr
  clock := tickSchedClock

theorem accounted_init {W tick : ℕ} (hW : 0 < W) (hW32 : W < 2 ^ 32) (cpu : Fin n)
    (idle grp : τ → Bool) (curr : τ) : (CpuSys.init W tick cpu idle grp curr).Accounted := by
  have hpos : 0 < tick + W := Nat.add_pos_right _ hW
  exact ⟨hW, hW32, rfl, le_rfl, hpos, fun _ => zero_le _, fun _ => hpos, fun _ _ => rfl, fun _ => rfl,
    ⟨Nat.zero_le _, Nat.zero_le _, fun _ => Nat.zero_le _, fun h => absurd rfl h⟩⟩

variable [DecidableEq τ] {t irqtime W m : ℕ} {s s' : CpuSys τ n} {q next p : τ} {r r' : Reading} {event : TaskEvent}

def CpuSys.ravg (s : CpuSys τ n) (q : τ) (event : TaskEvent) (wallclock irqtime : ℕ)
    (r : Reading) : Option (CpuSys τ n) :=
  (waltUpdateTaskRavg s.schedRavgWindow s.rq s.cpu (s.task q)
    ⟨event, wallclock, irqtime, q = s.curr, r.runnable, r.iowait, r.taskExecScale⟩).map
    fun (rq, p) => { s with rq := rq, task := update s.task q p, clock := wallclock }

/-- The hooks `android_rvh_schedule`, `_tick_entry`, `_try_to_wake_up` and `_account_irq`, the last
one at the end of an interrupt. -/
inductive CpuOp (τ : Type*)
  | schedule (next : τ) (wallclock : ℕ) (r r' : Reading)
  | tick (wallclock : ℕ) (r : Reading)
  | tryToWakeUp (p : τ) (inIowait : Bool) (wallclock : ℕ) (r r' : Reading)
  | accountIrq (delta wallclock : ℕ) (r : Reading)

/-- The hooks at non-decreasing `u64` clocks. A task that wakes up is neither running nor idle,
and the interrupt began after the idle task's last mark. -/
def cpuStep (s : CpuSys τ n) : CpuOp τ → Option (CpuSys τ n)
  | .schedule next wallclock r r' =>
    if s.clock ≤ wallclock ∧ wallclock < 2 ^ 64 then
      if s.curr = next then s.ravg s.curr .taskUpdate wallclock 0 r
      else
        -- the hook runs before the switch: `rq->curr` is still the outgoing task
        (s.ravg s.curr .putPrevTask wallclock 0 r).bind fun s =>
          (s.ravg next .pickNextTask wallclock 0 r').map fun s => { s with curr := next }
    else none
  | .tick wallclock r =>
    if s.clock ≤ wallclock ∧ wallclock < 2 ^ 64 then s.ravg s.curr .taskUpdate wallclock 0 r
    else none
  | .tryToWakeUp p inIowait wallclock r r' =>
    if s.clock ≤ wallclock ∧ wallclock < 2 ^ 64 ∧ p ≠ s.curr ∧ (s.task p).idle = false then
      (if (s.task s.curr).idle = true ∧ inIowait = true then
        s.ravg s.curr .taskUpdate wallclock 0 r
      else some s).bind fun s => s.ravg p .taskWake wallclock 0 r'
    else none
  | .accountIrq delta wallclock r =>
    if s.clock ≤ wallclock ∧ wallclock < 2 ^ 64 ∧ (s.task s.curr).idle = true ∧
        delta ≤ wallclock - (s.task s.curr).markStart then
      s.ravg s.curr .irqUpdate wallclock delta r
    else none

theorem Charged.mark_now {rq : WaltRq} (h : Charged W rq m) (hlat : rq.latestClock = t) (hws : rq.windowStart ≤ t) :
    Charged W rq t := by
  have h1 := h.elapsed
  have h2 := h.window
  exact ⟨h1, h2, fun _ => by omega, fun _ => by omega⟩

theorem CpuSys.Accounted.update (hs : s.Accounted) (hle : s.clock ≤ t) {rq' : WaltRq} {p' : WaltTask n}
    (hlat : rq'.latestClock = t) (hmono : s.rq.windowStart ≤ rq'.windowStart)
    (hini : rq'.windowStart ≤ t) (hlt : t < rq'.windowStart + s.schedRavgWindow)
    (hsize : rq'.prevWindowSize = s.schedRavgWindow) (hrun : s.rq.windowStart ≠ 0)
    (hmark : p'.markStart = t) (hbo : p'.loadBoost = 0)
    (hch : Charged s.schedRavgWindow rq' (update s.task q p' s.curr).markStart) :
    CpuSys.Accounted { s with rq := rq', task := update s.task q p', clock := t } := by
  refine ⟨hs.size_pos, hs.size_lt, hsize, hini, by rw [hlat]; exact hlt, ?_, ?_, fun h0 => ?_, ?_, hch⟩
  · exact (forall_update_iff s.task fun _ p => p.markStart ≤ t).mpr ⟨hmark.le, fun p _ => (hs.mark_le p).trans hle⟩
  · exact (forall_update_iff s.task fun _ p => p.markStart < rq'.windowStart + s.schedRavgWindow).mpr
      ⟨hmark ▸ hlt, fun p _ => (hs.mark_lt p).trans_le (Nat.add_le_add_right hmono _)⟩
  · dsimp only at h0
    omega
  · exact (forall_update_iff s.task fun _ p => p.loadBoost = 0).mpr ⟨hbo, fun p _ => hs.no_boost p⟩

section
variable (hs : s.Accounted) (hle : s.clock ≤ t) (hirq : irqtime ≤ t - (s.task q).markStart)
  (hbusy : q ≠ s.curr → accountBusyForCpuTime (s.task q)
    ⟨event, t, irqtime, q = s.curr, r.runnable, r.iowait, r.taskExecScale⟩ = false)
include hs hle hirq hbusy

theorem charged_updateCpuBusyTime (cpu : Fin n) {rq₁ : WaltRq} (hR₁ : rq₁.windowStart ≤ t)
    (hsize₁ : rq₁.prevWindowSize = s.schedRavgWindow) (hlat₁ : rq₁.latestClock = t)
    (hm0 : (s.task q).markStart ≠ 0) (hch₁ : Charged s.schedRavgWindow rq₁ (s.task s.curr).markStart) :
    let res := updateCpuBusyTime { rq₁ with taskExecScale := r.taskExecScale } cpu
      ((s.task q).startIn rq₁.windowStart)
      ⟨event, t, irqtime, q = s.curr, r.runnable, r.iowait, r.taskExecScale⟩
    Charged s.schedRavgWindow res.1 (update s.task q { res.2 with markStart := t } s.curr).markStart := by
  intro res
  by_cases hq : s.curr = q
  · have htot := @updateCpuBusyTime_totals n { rq₁ with taskExecScale := r.taskExecScale }
      ((s.task q).startIn rq₁.windowStart) cpu
      ⟨event, t, irqtime, q = s.curr, r.runnable, r.iowait, r.taskExecScale⟩ r.scale_le
      (by simpa using hs.no_boost q) (by simpa using hirq) hR₁
    rw [(startIn_unchanged _ _).1] at htot
    obtain ⟨hcurr, hprev⟩ := htot
    have hprev' : res.1.prevTotal ≤ rq₁.prevTotal + min (rq₁.windowStart - (s.task q).markStart) s.schedRavgWindow :=
      hprev.trans_eq (by rw [← hsize₁]; rfl)
    rw [hq] at hch₁ ⊢
    rw [update_self]
    exact hch₁.charge hm0 ((hs.mark_le q).trans hle) hR₁ (by simp [res])
      (by simpa [res] using hlat₁) hcurr hprev'
  · have hidle := hbusy (Ne.symm hq)
    rw [← accountBusyForCpuTime_startIn _ rq₁.windowStart] at hidle
    obtain ⟨hcurr, hprev⟩ :=
      @updateCpuBusyTime_idle_totals n { rq₁ with taskExecScale := r.taskExecScale } _ cpu _ hidle
    rw [update_of_ne hq]
    exact hch₁.congr hcurr hprev (by simp [res]) (by simp [res])

/-- One accounting call keeps the invariant: the running task is charged, nobody else is. -/
theorem ravg_accounted (ht : t < 2 ^ 64) (hfit : s.rq.WindowsFit s.schedRavgWindow t)
    (h : s.ravg q event t irqtime r = some s') :
    s'.Accounted ∧ s'.curr = s.curr ∧ s'.clock = t ∧ s'.schedRavgWindow = s.schedRavgWindow ∧
      s'.rq.WindowsFit s.schedRavgWindow t ∧ (∀ p, p ≠ q → s'.task p = s.task p) ∧
      (s'.rq.windowStart ≠ 0 → s.rq.windowStart ≠ 0 ∧ (s'.task q).markStart = t) := by
  obtain ⟨⟨rq', p'⟩, hr, rfl⟩ := map_eq_some_iff.mp h
  have hini := (hs.start_le).trans hle
  have hoth : ∀ p, p ≠ q → update s.task q p' p = s.task p :=
    fun p hp => update_of_ne hp p' s.task
  rcases waltUpdateTaskRavg_cases hr with ⟨hskip, hrq, hp⟩ | ⟨hws0, hne, rq₁, hrq₁, hcase⟩
  · subst hrq hp
    dsimp only at hfit hini ⊢
    rw [update_eq_self]
    refine ⟨{ hs with start_le := hini, mark_le := fun p => (hs.mark_le p).trans hle },
      rfl, rfl, rfl, hfit, fun _ _ => rfl, ?_⟩
    intro h0
    exact ⟨h0, hskip.resolve_left h0⟩
  · obtain ⟨hlat₁, hmono, hR₁, hlt, hsize₁⟩ :=
      updateWindowStart_bounds hs.size_pos hs.size_lt hini ht hfit hrq₁
    have hch₁ := hs.charged.updateWindowStart hs.size_pos hs.size_lt hini ht hfit hs.latest_lt
      (hs.mark_lt s.curr) hrq₁
    have hfit' : ∀ rq : WaltRq, rq.windowStart = rq₁.windowStart → rq.WindowsFit s.schedRavgWindow t := by
      unfold WaltRq.WindowsFit
      omega
    rcases hcase with ⟨hm0, rfl, rfl⟩ | ⟨hm0, rfl, rfl⟩
    · -- first call for this task: only the mark is set
      refine ⟨hs.update hle hlat₁ hmono hR₁ hlt (hsize₁ hs.size_eq) hws0 rfl ?_ ?_,
        rfl, rfl, rfl, hfit' _ rfl, hoth, fun _ => ⟨hws0, by simp⟩⟩
      · unfold WaltTask.startIn
        split <;> exact hs.no_boost q
      · by_cases hq : s.curr = q
        · rw [hq, update_self]
          exact hch₁.mark_now hlat₁ hR₁
        · rw [update_of_ne hq]
          exact hch₁
    · have hch := charged_updateCpuBusyTime hs hle hirq hbusy s.cpu hR₁ (hsize₁ hs.size_eq) hlat₁ hm0 hch₁
      refine ⟨hs.update hle (by simpa using hlat₁) (by simpa using hmono) (by simpa using hR₁)
        (by simpa using hlt) (by simpa using hsize₁ hs.size_eq) hws0 rfl
        (by simpa using hs.no_boost q) hch, rfl, rfl, rfl, hfit' _ (by simp), hoth,
        fun _ => ⟨hws0, by simp⟩⟩

end

def CpuOp.wallclock : CpuOp τ → ℕ
  | .schedule _ wallclock _ _ | .tick wallclock _ | .tryToWakeUp _ _ wallclock _ _
  | .accountIrq _ wallclock _ => wallclock

/-- The step condition: fewer than 2^31 windows have elapsed since the window start. -/
def CpuOp.Fits (s : CpuSys τ n) (op : CpuOp τ) : Prop :=
  s.rq.WindowsFit s.schedRavgWindow op.wallclock

instance (s : CpuSys τ n) (op : CpuOp τ) : Decidable (op.Fits s) :=
  inferInstanceAs (Decidable (s.rq.WindowsFit s.schedRavgWindow op.wallclock))

/-- The outgoing task is charged, the incoming one marked. -/
theorem accounted_schedule (hs : s.Accounted) (hfit : (CpuOp.schedule next t r r').Fits s)
    (h : cpuStep s (.schedule next t r r') = some s') : s'.Accounted := by
  obtain ⟨⟨hle, ht⟩, h⟩ := ite_none_right_eq_some.mp h
  split at h
  · exact (ravg_accounted hs hle (zero_le _) (absurd rfl) ht hfit h).1
  · next hne =>
    obtain ⟨s₁, h₁, h⟩ := bind_eq_some_iff.mp h
    obtain ⟨s₂, h₂, rfl⟩ := map_eq_some_iff.mp h
    obtain ⟨hs₁, hcurr₁, hck₁, hsize₁, hfit₁, -, hmark₁⟩ :=
      ravg_accounted hs hle (zero_le _) (absurd rfl) ht hfit h₁
    have hbusy : accountBusyForCpuTime (s₁.task next)
        ⟨.pickNextTask, t, 0, next = s₁.curr, r'.runnable, r'.iowait, r'.taskExecScale⟩ =
          false := by
      unfold accountBusyForCpuTime
      split <;> rfl
    obtain ⟨hs₂, hcurr₂, hck₂, -, -, hoth₂, hmark₂⟩ :=
      ravg_accounted hs₁ hck₁.le (zero_le _) (fun _ => hbusy) ht (hsize₁ ▸ hfit₁) h₂
    have hprev : s₂.task s₂.curr = s₁.task s.curr := by
      rw [hcurr₂, hcurr₁]
      exact hoth₂ s.curr hne
    refine hs₂.switch ?_ (fun h0 => by rw [(hmark₂ h0).2, hck₂])
    intro h0
    rw [hprev, (hmark₁ (hmark₂ h0).1).2, hck₂]

theorem accounted_tryToWakeUp (hs : s.Accounted) {inIowait : Bool}
    (hfit : (CpuOp.tryToWakeUp p inIowait t r r').Fits s) (h : cpuStep s (.tryToWakeUp p inIowait t r r') = some s') :
    s'.Accounted := by
  obtain ⟨⟨hle, ht, hne, hidle⟩, h⟩ := ite_none_right_eq_some.mp h
  obtain ⟨s₁, h₁, h⟩ := bind_eq_some_iff.mp h
  -- an idle CPU that waited for I/O is charged first, at the same clock
  have hfst : s₁.Accounted ∧ s₁.clock ≤ t ∧ s₁.rq.WindowsFit s₁.schedRavgWindow t ∧ s₁.task p = s.task p := by
    split at h₁
    · obtain ⟨hs₁, -, hck₁, hsize₁, hfit₁, hoth₁, -⟩ :=
        ravg_accounted hs hle (zero_le _) (absurd rfl) ht hfit h₁
      exact ⟨hs₁, hck₁.le, hsize₁ ▸ hfit₁, hoth₁ p hne⟩
    · cases h₁
      exact ⟨hs, hle, hfit, rfl⟩
  obtain ⟨hs₁, hle₁, hfit₁, htask⟩ := hfst
  refine (ravg_accounted hs₁ hle₁ (zero_le _) ?_ ht hfit₁ h).1
  rw [htask]
  simp [accountBusyForCpuTime, hidle]

theorem accounted_step (s : CpuSys τ n) (op : CpuOp τ) (s' : CpuSys τ n) (hs : s.Accounted)
    (hfit : op.Fits s) (h : cpuStep s op = some s') : s'.Accounted := by
  cases op with
  | schedule next t r r' => exact accounted_schedule hs hfit h
  | tick t r =>
    obtain ⟨hck, h⟩ := ite_none_right_eq_some.mp h
    exact (ravg_accounted hs hck.1 (zero_le _) (absurd rfl) hck.2 hfit h).1
  | tryToWakeUp p inIowait t r r' => exact accounted_tryToWakeUp hs hfit h
  | accountIrq delta t r =>
    obtain ⟨hck, h⟩ := ite_none_right_eq_some.mp h
    exact (ravg_accounted hs hck.1 hck.2.2.2 (absurd rfl) hck.2.1 hfit h).1

/-- In every state of every run in which no event comes 2^31 windows late, the time charged in the current
window is at most the time since its start, in the previous window at most a window. -/
theorem no_over_accounting (W tick : ℕ) (hW : 0 < W) (hW32 : W < 2 ^ 32) (cpu : Fin n)
    (idle grp : τ → Bool) (curr : τ) (ops : List (CpuOp τ)) {s : CpuSys τ n}
    (hfit : Meets cpuStep CpuOp.Fits (CpuSys.init W tick cpu idle grp curr) ops)
    (hrun : run cpuStep (CpuSys.init W tick cpu idle grp curr) ops = some s) :
    s.rq.sums.currRunnableSum + s.rq.grpTime.currRunnableSum ≤
        s.rq.latestClock - s.rq.windowStart ∧
      s.rq.sums.prevRunnableSum + s.rq.grpTime.prevRunnableSum ≤ s.schedRavgWindow := by
  have hs := run_inv accounted_step (accounted_init hW hW32 cpu idle grp curr) hfit hrun
  exact ⟨hs.charged.elapsed, hs.charged.window⟩

def idleTrace : List (CpuOp (Fin 2)) :=
  let r : Reading := ⟨true, false, 1024, le_rfl⟩
  [.tick 2000 r, .schedule 1 9000000 r r, .tryToWakeUp 0 true 9500000 r r,
    .accountIrq 1000 9600000 r, .schedule 0 17000000 r r, .tick 24000000 r]

/-- A task of the group and the idle task take turns over three windows, with a wake-up and an interrupt
while the CPU is idle. -/
theorem no_over_accounting_idleTrace :
    ∃ s : CpuSys (Fin 2) 1,
      run cpuStep (.init 8000000 1000 0 (fun q => q = 1) (fun q => q = 0) 0) idleTrace = some s ∧
      s.rq.grpTime.currRunnableSum = 7000000 ∧
      s.rq.sums.prevRunnableSum + s.rq.grpTime.prevRunnableSum ≤ s.schedRavgWindow :=
  ⟨_, (some_get (by decide +kernel)).symm, by decide +kernel,
    (no_over_accounting 8000000 1000 (by decide) (by decide) 0 _ _ 0 idleTrace
      (by decide +kernel) (some_get _).symm).2⟩

/-- After 2^32 elapsed windows the truncated count leaves the window where it was, and the whole
time is charged to it. -/
theorem over_accounted :
    ∃ s : CpuSys (Fin 1) 1,
      run cpuStep (.init 8000000 1000 0 (fun _ => false) (fun _ => false) 0)
        [.tick 1000 ⟨true, false, 1024, le_rfl⟩,
          .tick (1000 + 2 ^ 32 * 8000000) ⟨true, false, 1024, le_rfl⟩,
          .tick (1000 + 2 ^ 32 * 8000000 + 8000000) ⟨true, false, 1024, le_rfl⟩] = some s ∧
      s.schedRavgWindow < s.rq.sums.prevRunnableSum + s.rq.grpTime.prevRunnableSum :=
  ⟨_, (some_get (by decide +kernel)).symm, by decide +kernel⟩

end VendorKernel.Walt
