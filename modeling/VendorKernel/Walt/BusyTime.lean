import VendorKernel.Walt.TopTasks

/-! Busy-time accounting of one runqueue: the window, the busy-time sums of the CPU and of the related thread
group, and the charging of a task at a scheduler event. -/
namespace VendorKernel.Walt

inductive TaskEvent
  | putPrevTask
  | pickNextTask
  | taskWake
  | taskMigrate
  | taskUpdate
  | irqUpdate
  deriving DecidableEq, Repr

structure BusySums where
  currRunnableSum : ℕ
  prevRunnableSum : ℕ
  ntCurrRunnableSum : ℕ
  ntPrevRunnableSum : ℕ
  deriving DecidableEq, Repr

structure LoadSubtractions where
  windowStart : ℕ
  subs : ℕ
  newSubs : ℕ
  deriving DecidableEq, Repr

structure WaltRq where
  windowStart : ℕ
  prevWindowSize : ℕ
  latestClock : ℕ
  taskExecScale : ℕ
  sums : BusySums
  grpTime : BusySums
  loadSubs : Fin 2 → LoadSubtractions
  top : TopTasks
  notifPending : Bool

structure WaltTask (n : ℕ) where
  idle : Bool
  cpu : Fin n
  markStart : ℕ
  windowStart : ℕ
  currWindow : ℕ
  prevWindow : ℕ
  currWindowCpu : Fin n → ℕ
  prevWindowCpu : Fin n → ℕ
  activeTime : ℕ
  grp : Bool
  loadBoost : ℤ
  boostedTaskLoad : ℤ
  enqueueAfterMigration : ℕ
  prevCpu : Fin n
  newCpu : Option (Fin n)

/-- A call of `walt_update_task_ravg` and what it reads of the task, the CPU and the execution scale. -/
structure RavgEvent where
  event : TaskEvent
  wallclock : ℕ
  irqtime : ℕ
  isCurr : Bool
  runnable : Bool
  iowait : Bool
  taskExecScale : ℕ
  deriving DecidableEq, Repr

def schedFreqAccountWaitTime : Bool := false
def newTaskActiveTime : ℕ := 100000000

def toU32 (x : ℕ) : ℕ := x % 2 ^ 32

variable {n : ℕ}

def isNewTask (p : WaltTask n) : Bool := p.activeTime < newTaskActiveTime

def BusySums.zero : BusySums := ⟨0, 0, 0, 0⟩

def BusySums.addCurr (s : BusySums) (delta : ℕ) (newTask : Bool) : BusySums :=
  { s with
    currRunnableSum := s.currRunnableSum + delta
    ntCurrRunnableSum := if newTask then s.ntCurrRunnableSum + delta else s.ntCurrRunnableSum }

def BusySums.addPrev (s : BusySums) (delta : ℕ) (newTask : Bool) : BusySums :=
  { s with
    prevRunnableSum := s.prevRunnableSum + delta
    ntPrevRunnableSum := if newTask then s.ntPrevRunnableSum + delta else s.ntPrevRunnableSum }

/-- The runqueue as `walt_sched_init_rq` and then `walt_init_stop_handler` leave it. -/
def WaltRq.init (schedRavgWindow tickSchedClock : ℕ) : WaltRq where
  windowStart := tickSchedClock
  prevWindowSize := schedRavgWindow
  latestClock := 0
  taskExecScale := 1024
  sums := .zero
  grpTime := .zero
  loadSubs _ := ⟨0, 0, 0⟩
  top := .init
  notifPending := false

def WaltTask.init (idle : Bool) (cpu : Fin n) (grp : Bool) : WaltTask n where
  idle := idle
  cpu := cpu
  markStart := 0
  windowStart := 0
  currWindow := 0
  prevWindow := 0
  currWindowCpu _ := 0
  prevWindowCpu _ := 0
  activeTime := 0
  grp := grp
  loadBoost := 0
  boostedTaskLoad := 0
  enqueueAfterMigration := 0
  prevCpu := cpu
  newCpu := none

def WaltRq.sumsOf (rq : WaltRq) (grp : Bool) : BusySums := if grp then rq.grpTime else rq.sums

def WaltRq.setSumsOf (rq : WaltRq) (grp : Bool) (s : BusySums) : WaltRq :=
  if grp then { rq with grpTime := s } else { rq with sums := s }

def BusySums.rollover (s : BusySums) (fullWindow : Bool) : BusySums where
  prevRunnableSum := if fullWindow then 0 else s.currRunnableSum
  ntPrevRunnableSum := if fullWindow then 0 else s.ntCurrRunnableSum
  currRunnableSum := 0
  ntCurrRunnableSum := 0

def rolloverCpuWindow (rq : WaltRq) (fullWindow : Bool) : WaltRq :=
  { rq with sums := rq.sums.rollover fullWindow, grpTime := rq.grpTime.rollover fullWindow }

/-- `update_window_start`, with `none` for its two panics. The number of elapsed windows is
an `int`. -/
def updateWindowStart (schedRavgWindow : ℕ) (rq : WaltRq) (wallclock : ℕ) : Option WaltRq :=
  let delta : ℤ := Int.bmod ((wallclock : ℤ) - rq.windowStart) (2 ^ 64)
  if wallclock < rq.latestClock then none
  else if delta < 0 then none
  else
    let rq := { rq with latestClock := wallclock }
    if delta < schedRavgWindow then some rq
    else
      let nrWindows : ℤ := Int.bmod (delta / schedRavgWindow) (2 ^ 32)
      let rq :=
        { rq with
          windowStart := ((rq.windowStart + nrWindows * schedRavgWindow) % 2 ^ 64).toNat
          prevWindowSize := schedRavgWindow }
      let fullWindow : Bool := nrWindows > 1
      let rq := rolloverCpuWindow rq fullWindow
      some { rq with top := rq.top.rolloverTopTasks fullWindow }

def rolloverTaskWindow (p : WaltTask n) (prevWindowSize : ℕ) (fullWindow : Bool) : WaltTask n :=
  { p with
    prevWindow := if fullWindow then 0 else p.currWindow
    currWindow := 0
    prevWindowCpu := fun i => if fullWindow then 0 else p.currWindowCpu i
    currWindowCpu := fun _ => 0
    activeTime := if isNewTask p then p.activeTime + prevWindowSize else p.activeTime }

def accountBusyForCpuTime (p : WaltTask n) (e : RavgEvent) : Bool :=
  if p.idle then
    if e.event = .pickNextTask then false else e.irqtime ≠ 0 || e.iowait
  else
    match e.event with
    | .taskWake => false
    | .putPrevTask | .irqUpdate => true
    | .taskUpdate =>
      if e.isCurr then true else if e.runnable then schedFreqAccountWaitTime else false
    | .taskMigrate | .pickNextTask => schedFreqAccountWaitTime

def scaleExecTime (delta : ℕ) (rq : WaltRq) (p : WaltTask n) : ℕ :=
  let delta := delta * rq.taskExecScale % 2 ^ 64 / 1024
  if p.loadBoost ≠ 0 ∧ p.grp then
    ((delta * (1024 + p.boostedTaskLoad)) % 2 ^ 64 / 1024).toNat
  else delta

def WaltTask.addCurrWindow (p : WaltTask n) (cpu : Fin n) (delta : ℕ) : WaltTask n :=
  { p with
    currWindow := toU32 (p.currWindow + delta)
    currWindowCpu := Function.update p.currWindowCpu cpu (toU32 (p.currWindowCpu cpu + delta)) }

def WaltTask.setCurrWindow (p : WaltTask n) (cpu : Fin n) (delta : ℕ) : WaltTask n :=
  { p with currWindow := toU32 delta, currWindowCpu := Function.update p.currWindowCpu cpu (toU32 delta) }

def WaltTask.addPrevWindow (p : WaltTask n) (cpu : Fin n) (delta : ℕ) : WaltTask n :=
  { p with
    prevWindow := toU32 (p.prevWindow + delta)
    prevWindowCpu := Function.update p.prevWindowCpu cpu (toU32 (p.prevWindowCpu cpu + delta)) }

def WaltTask.setPrevWindow (p : WaltTask n) (cpu : Fin n) (delta : ℕ) : WaltTask n :=
  { p with prevWindow := toU32 delta, prevWindowCpu := Function.update p.prevWindowCpu cpu (toU32 delta) }

/-- The charge of a span over a window start. The running idle task's own counters stay. -/
def chargeSplit (rq : WaltRq) (cpu : Fin n) (p : WaltTask n) (newTask : Bool) (wallclock : ℕ)
    (fullWindow taskCounters : Bool) : WaltRq × WaltTask n :=
  let delta :=
    if fullWindow then scaleExecTime rq.prevWindowSize rq p
    else scaleExecTime (rq.windowStart - p.markStart) rq p
  let sums := (rq.sumsOf p.grp).addPrev delta newTask
  let delta' := scaleExecTime (wallclock - rq.windowStart) rq p
  let sums := sums.addCurr delta' newTask
  let p' :=
    if taskCounters then
      (if fullWindow then p.setPrevWindow cpu delta else p.addPrevWindow cpu delta).setCurrWindow cpu delta'
    else p
  (rq.setSumsOf p.grp sums, p')

def chargeIrq (rq : WaltRq) (p : WaltTask n) (wallclock irqtime : ℕ) : WaltRq :=
  let markStart := wallclock - irqtime
  let sums := rq.sumsOf p.grp
  if markStart > rq.windowStart then
    rq.setSumsOf p.grp (sums.addCurr (scaleExecTime irqtime rq p) false)
  else
    let delta := min (rq.windowStart - markStart) rq.prevWindowSize
    let rq' := rq.setSumsOf p.grp (sums.addPrev (scaleExecTime delta rq p) false)
    -- the remainder always goes to the CPU's own sum
    { rq' with sums := rq'.sums.addCurr (scaleExecTime (wallclock - rq.windowStart) rq p) false }

def newWindow (rq : WaltRq) (p : WaltTask n) : Bool := p.markStart < rq.windowStart

def fullWindow (rq : WaltRq) (p : WaltTask n) : Bool :=
  newWindow rq p && rq.prevWindowSize ≤ rq.windowStart - p.markStart

def enterWindow (rq : WaltRq) (p : WaltTask n) : WaltTask n :=
  if newWindow rq p then
    let p := if p.idle then p else rolloverTaskWindow p rq.prevWindowSize (fullWindow rq p)
    { p with windowStart := rq.windowStart }
  else p

/-- The charge of `update_cpu_busy_time`: within the window, to a task that is not running, to the running
task, or as interrupt time. -/
def chargeBusyTime (rq : WaltRq) (cpu : Fin n) (p : WaltTask n) (e : RavgEvent)
    (newWindow fullWindow : Bool) : WaltRq × WaltTask n :=
  let newTask := isNewTask p
  if accountBusyForCpuTime p e = false then (rq, p)
  else if newWindow = false then
    let delta :=
      if e.irqtime = 0 ∨ p.idle = false ∨ e.iowait = true then e.wallclock - p.markStart
      else e.irqtime
    let delta := scaleExecTime delta rq p
    (rq.setSumsOf p.grp ((rq.sumsOf p.grp).addCurr delta newTask),
      if p.idle then p else p.addCurrWindow cpu delta)
  else if e.isCurr = false then chargeSplit rq cpu p newTask e.wallclock fullWindow true
  else if e.irqtime = 0 ∨ p.idle = false ∨ e.iowait = true then
    chargeSplit rq cpu p newTask e.wallclock fullWindow (!p.idle)
  else (chargeIrq rq p e.wallclock e.irqtime, p)

/-- Interrupt time leaves early, but only the idle task has any, and the tables are not kept for it. -/
def updateCpuBusyTime (rq : WaltRq) (cpu : Fin n) (p : WaltTask n) (e : RavgEvent) : WaltRq × WaltTask n :=
  let (rq', p') :=
    chargeBusyTime rq cpu (enterWindow rq p) e (newWindow rq p) (fullWindow rq p)
  if p.idle then (rq', p')
  else
    ({ rq' with
        top := rq'.top.updateTopTasks p.currWindow p'.currWindow p'.prevWindow (newWindow rq p)
          (fullWindow rq p) }, p')

/-- A task that was never accounted starts in the window of its runqueue. -/
def WaltTask.startIn (p : WaltTask n) (windowStart : ℕ) : WaltTask n :=
  if p.windowStart = 0 then { p with windowStart := windowStart } else p

/-- `walt_update_task_ravg` past its test of `task_on_scx`, as far as it concerns windows and busy time. -/
def waltUpdateTaskRavg (schedRavgWindow : ℕ) (rq : WaltRq) (cpu : Fin n) (p : WaltTask n)
    (e : RavgEvent) : Option (WaltRq × WaltTask n) :=
  if rq.windowStart = 0 ∨ p.markStart = e.wallclock then some (rq, p)
  else
    match updateWindowStart schedRavgWindow rq e.wallclock with
    | none => none
    | some rq =>
      let p := p.startIn rq.windowStart
      if p.markStart = 0 then some (rq, { p with markStart := e.wallclock })
      else
        let (rq, p) := updateCpuBusyTime { rq with taskExecScale := e.taskExecScale } cpu p e
        some (rq, { p with markStart := e.wallclock })

/-! ### Everything else is unchanged -/

variable (rq : WaltRq)

theorem setSumsOf_frame (grp : Bool) (s : BusySums) :
    ∃ sums grpTime, rq.setSumsOf grp s = { rq with sums := sums, grpTime := grpTime } := by
  cases grp with
  | false => exact ⟨s, rq.grpTime, rfl⟩
  | true => exact ⟨rq.sums, s, rfl⟩

theorem chargeIrq_frame (p : WaltTask n) (wallclock irqtime : ℕ) :
    ∃ sums grpTime, chargeIrq rq p wallclock irqtime =
      { rq with sums := sums, grpTime := grpTime } := by
  unfold chargeIrq
  dsimp only
  split
  · exact setSumsOf_frame ..
  · obtain ⟨sums, grpTime, h⟩ := setSumsOf_frame rq p.grp ((rq.sumsOf p.grp).addPrev
      (scaleExecTime (min (rq.windowStart - (wallclock - irqtime)) rq.prevWindowSize) rq p) false)
    rw [h]
    exact ⟨_, grpTime, rfl⟩

theorem chargeSplit_frame (cpu : Fin n) (p : WaltTask n) (newTask : Bool) (wallclock : ℕ)
    (fullWindow taskCounters : Bool) :
    ∃ sums grpTime c v cc vc,
      chargeSplit rq cpu p newTask wallclock fullWindow taskCounters =
        ({ rq with sums := sums, grpTime := grpTime },
          { p with currWindow := c, prevWindow := v, currWindowCpu := cc, prevWindowCpu := vc }) := by
  unfold chargeSplit
  dsimp only
  obtain ⟨sums, grpTime, h⟩ := setSumsOf_frame rq p.grp _
  rw [h]
  cases taskCounters with
  | false => exact ⟨sums, grpTime, _, _, _, _, rfl⟩
  | true => cases fullWindow <;> exact ⟨sums, grpTime, _, _, _, _, rfl⟩

theorem chargeBusyTime_frame (cpu : Fin n) (p : WaltTask n) (e : RavgEvent) (newWindow fullWindow : Bool) :
    ∃ sums grpTime c v cc vc, chargeBusyTime rq cpu p e newWindow fullWindow =
      ({ rq with sums := sums, grpTime := grpTime },
        { p with currWindow := c, prevWindow := v, currWindowCpu := cc, prevWindowCpu := vc }) := by
  unfold chargeBusyTime
  dsimp only
  split
  · exact ⟨_, _, _, _, _, _, rfl⟩
  · split
    · obtain ⟨sums, grpTime, h⟩ := setSumsOf_frame rq p.grp _
      rw [h]
      split <;> exact ⟨sums, grpTime, _, _, _, _, rfl⟩
    · split
      · exact chargeSplit_frame ..
      · split
        · exact chargeSplit_frame ..
        · obtain ⟨sums, grpTime, h⟩ := chargeIrq_frame rq p e.wallclock e.irqtime
          rw [h]
          exact ⟨sums, grpTime, _, _, _, _, rfl⟩

theorem enterWindow_frame (p : WaltTask n) :
    ∃ w c v cc vc a, enterWindow rq p =
      { p with
        windowStart := w, currWindow := c, prevWindow := v, currWindowCpu := cc
        prevWindowCpu := vc, activeTime := a } := by
  unfold enterWindow
  split
  · split <;> exact ⟨_, _, _, _, _, _, rfl⟩
  · exact ⟨_, _, _, _, _, _, rfl⟩

theorem updateCpuBusyTime_frame (cpu : Fin n) (p : WaltTask n) (e : RavgEvent) :
    ∃ sums grpTime top w c v cc vc a, updateCpuBusyTime rq cpu p e =
      ({ rq with sums := sums, grpTime := grpTime, top := top },
        { p with
          windowStart := w, currWindow := c, prevWindow := v, currWindowCpu := cc
          prevWindowCpu := vc, activeTime := a }) := by
  obtain ⟨w, c, v, cc, vc, a, hp⟩ := enterWindow_frame rq p
  obtain ⟨sums, grpTime, c', v', cc', vc', hchr⟩ :=
    chargeBusyTime_frame rq cpu (enterWindow rq p) e (newWindow rq p) (fullWindow rq p)
  unfold updateCpuBusyTime
  rw [hchr, hp]
  dsimp only
  split
  · exact ⟨sums, grpTime, rq.top, _, _, _, _, _, _, rfl⟩
  · exact ⟨sums, grpTime, _, _, _, _, _, _, _, rfl⟩

section
variable (rq : WaltRq) (cpu : Fin n) (p : WaltTask n) (e : RavgEvent)

@[simp] theorem updateCpuBusyTime_rq_unchanged :
    (updateCpuBusyTime rq cpu p e).1.prevWindowSize = rq.prevWindowSize ∧
      (updateCpuBusyTime rq cpu p e).1.latestClock = rq.latestClock ∧
      (updateCpuBusyTime rq cpu p e).1.windowStart = rq.windowStart := by
  obtain ⟨_, _, _, _, _, _, _, _, _, h⟩ := updateCpuBusyTime_frame rq cpu p e
  rw [h]
  exact ⟨rfl, rfl, rfl⟩

@[simp] theorem updateCpuBusyTime_task_unchanged :
    (updateCpuBusyTime rq cpu p e).2.idle = p.idle ∧
      (updateCpuBusyTime rq cpu p e).2.cpu = p.cpu ∧
      (updateCpuBusyTime rq cpu p e).2.grp = p.grp ∧
      (updateCpuBusyTime rq cpu p e).2.loadBoost = p.loadBoost ∧
      (updateCpuBusyTime rq cpu p e).2.boostedTaskLoad = p.boostedTaskLoad ∧
      (updateCpuBusyTime rq cpu p e).2.enqueueAfterMigration = p.enqueueAfterMigration := by
  obtain ⟨_, _, _, _, _, _, _, _, _, h⟩ := updateCpuBusyTime_frame rq cpu p e
  rw [h]
  exact ⟨rfl, rfl, rfl, rfl, rfl, rfl⟩

end

variable {p p' : WaltTask n} {e : RavgEvent} {rq rq' : WaltRq} {W : ℕ} {cpu : Fin n}

section
variable (p : WaltTask n) (ws : ℕ)

theorem startIn_frame : ∃ w, p.startIn ws = { p with windowStart := w } := by
  unfold WaltTask.startIn
  split
  · exact ⟨ws, rfl⟩
  · exact ⟨p.windowStart, rfl⟩

@[simp] theorem startIn_unchanged :
    (p.startIn ws).markStart = p.markStart ∧ (p.startIn ws).idle = p.idle ∧
      (p.startIn ws).cpu = p.cpu ∧ (p.startIn ws).grp = p.grp ∧
      (p.startIn ws).loadBoost = p.loadBoost ∧
      (p.startIn ws).enqueueAfterMigration = p.enqueueAfterMigration := by
  obtain ⟨w, h⟩ := startIn_frame p ws
  rw [h]
  exact ⟨rfl, rfl, rfl, rfl, rfl, rfl⟩

@[simp] theorem accountBusyForCpuTime_startIn (e : RavgEvent) :
    accountBusyForCpuTime (p.startIn ws) e = accountBusyForCpuTime p e := by
  obtain ⟨w, h⟩ := startIn_frame p ws
  rw [h]
  rfl

end

theorem accountBusyForCpuTime_of_not_curr (hidle : p.idle = false)
    (he : e.event = .taskMigrate ∨ e.event = .taskUpdate ∧ e.isCurr = false) :
    accountBusyForCpuTime p e = false := by
  rcases he with he | ⟨he, hcurr⟩
  · simp [accountBusyForCpuTime, hidle, he, schedFreqAccountWaitTime]
  · simp [accountBusyForCpuTime, hidle, he, hcurr, schedFreqAccountWaitTime]

theorem updateCpuBusyTime_uncharged (cpu : Fin n) (h : accountBusyForCpuTime p e = false) :
    updateCpuBusyTime rq cpu p e =
      (if p.idle then rq
        else
          { rq with
            top := rq.top.updateTopTasks p.currWindow (enterWindow rq p).currWindow
              (enterWindow rq p).prevWindow (newWindow rq p) (fullWindow rq p) },
        enterWindow rq p) := by
  have hen : accountBusyForCpuTime (enterWindow rq p) e = false := by
    obtain ⟨_, _, _, _, _, _, hfr⟩ := enterWindow_frame rq p
    rw [hfr]
    exact h
  unfold updateCpuBusyTime chargeBusyTime
  dsimp only
  split
  · rfl
  · rfl

/-- What one accounting call does: nothing, only set the mark, or charge the task. -/
theorem waltUpdateTaskRavg_cases (h : waltUpdateTaskRavg W rq cpu p e = some (rq', p')) :
    ((rq.windowStart = 0 ∨ p.markStart = e.wallclock) ∧ rq' = rq ∧ p' = p) ∨
    (rq.windowStart ≠ 0 ∧ p.markStart ≠ e.wallclock ∧
      ∃ rq₁, updateWindowStart W rq e.wallclock = some rq₁ ∧
        ((p.markStart = 0 ∧ rq' = rq₁ ∧
            p' = { p.startIn rq₁.windowStart with markStart := e.wallclock }) ∨
          (p.markStart ≠ 0 ∧
            rq' = (updateCpuBusyTime { rq₁ with taskExecScale := e.taskExecScale } cpu
              (p.startIn rq₁.windowStart) e).1 ∧
            p' = { (updateCpuBusyTime { rq₁ with taskExecScale := e.taskExecScale } cpu
              (p.startIn rq₁.windowStart) e).2 with markStart := e.wallclock }))) := by
  unfold waltUpdateTaskRavg at h
  split at h
  · next hskip =>
    cases h
    exact .inl ⟨hskip, rfl, rfl⟩
  · next hgo =>
    obtain ⟨hws, hmark⟩ := not_or.mp hgo
    refine .inr ⟨hws, hmark, ?_⟩
    split at h
    · simp at h
    · next rq₁ hrq₁ =>
      refine ⟨rq₁, hrq₁, ?_⟩
      dsimp only at h
      rw [(startIn_unchanged p _).1] at h
      split at h
      · next h0 =>
        cases h
        exact .inl ⟨h0, rfl, rfl⟩
      · next h0 =>
        cases h
        exact .inr ⟨h0, rfl, rfl⟩

theorem ravg_task_frame (hs : waltUpdateTaskRavg W rq cpu p e = some (rq', p')) :
    p'.idle = p.idle ∧ p'.cpu = p.cpu ∧ p'.grp = p.grp ∧ p'.enqueueAfterMigration = p.enqueueAfterMigration := by
  rcases waltUpdateTaskRavg_cases hs with ⟨-, -, rfl⟩ | ⟨-, -, rq₁, -, hcase⟩
  · exact ⟨rfl, rfl, rfl, rfl⟩
  · rcases hcase with ⟨-, -, rfl⟩ | ⟨-, -, rfl⟩
    · simp
    · simp

theorem ravg_markStart (hws : rq.windowStart ≠ 0) (hs : waltUpdateTaskRavg W rq cpu p e = some (rq', p')) :
    p'.markStart = e.wallclock := by
  rcases waltUpdateTaskRavg_cases hs with ⟨hskip, -, rfl⟩ | ⟨-, -, rq₁, -, hcase⟩
  · exact hskip.resolve_left hws
  · rcases hcase with ⟨-, -, rfl⟩ | ⟨-, -, rfl⟩
    · rfl
    · rfl

end VendorKernel.Walt
