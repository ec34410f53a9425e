import VendorKernel.Walt.Demand
import VendorKernel.Lib.Machine

/-! What a runqueue counts of the tasks enqueued on it, and the running averages: the enqueue and dequeue
hooks, the demand updates, misfit changes and the poll. -/
namespace VendorKernel.Walt

variable {n : ℕ}

structure WaltSchedStats where
  nrBigTasks : ℤ
  nrRtgHighPrioTasks : ℤ
  nrTrailblazerTasks : ℤ
  nrGiantTasks : ℤ
  cumulativeRunnableAvgScaled : ℤ
  predDemandsSumScaled : ℤ
  /-- Not in the source: a negative value was clamped or an assertion was hit. -/
  bug : Bool

structure StatRq extends WaltSchedStats where
  nr : ℤ
  nrMax : ℤ
  lastTime : ℕ
  nrProdSum : ℤ
  nrBigProdSum : ℤ
  nrGiantProdSum : ℤ

structure NrReading where
  currTime : ℕ
  nrRunning : ℕ

def StatRq.tmpNr (rq : StatRq) (currTime : ℕ) : ℤ :=
  rq.nrProdSum + rq.nr * ((currTime : ℤ) - rq.lastTime)

def StatRq.tmpMisfit (rq : StatRq) (currTime : ℕ) : ℤ :=
  rq.nrBigProdSum + rq.nrBigTasks * ((currTime : ℤ) - rq.lastTime)

def StatRq.tmpGiant (rq : StatRq) (currTime : ℕ) : ℤ :=
  rq.nrGiantProdSum + rq.nrGiantTasks * ((currTime : ℤ) - rq.lastTime)

def schedUpdateNrProd (rq : StatRq) (r : NrReading) (enq : ℤ) : StatRq :=
  { rq with
    lastTime := r.currTime
    nr := r.nrRunning + enq
    nrMax := max rq.nrMax (r.nrRunning + enq)
    nrProdSum := rq.tmpNr r.currTime
    nrBigProdSum := rq.tmpMisfit r.currTime
    nrGiantProdSum := rq.tmpGiant r.currTime }

structure SchedAvgStats where
  nr : ℤ
  nrMisfit : ℤ
  nrGiant : ℤ
  nrMax : ℤ
  nrScaled : ℤ

def nrThresholdPct : ℤ := 40

/-- One CPU of `sched_get_nr_running_avg`, for a poll `period` after the last one. -/
def schedGetNrRunningAvg (rq : StatRq) (currTime period : ℕ) : StatRq × SchedAvgStats :=
  let tmpNr := rq.tmpNr currTime * 100 / period
  let tmpMisfit := rq.tmpMisfit currTime * 100 / period
  let tmpGiant := rq.tmpGiant currTime * 100 / period
  ({ rq with lastTime := currTime, nrProdSum := 0, nrBigProdSum := 0, nrGiantProdSum := 0, nrMax := rq.nr },
    { nr := (tmpNr + nrThresholdPct) / 100
      nrMisfit := (tmpMisfit + nrThresholdPct) / 100
      nrGiant := (tmpGiant + nrThresholdPct) / 100
      nrMax := rq.nrMax
      nrScaled := tmpNr })

/-! ### Fixups -/

def clampSum (x : ℤ) : ℤ := if x < 0 then 0 else x

/-- `fixup_cumulative_runnable_avg`, always called on the task's own runqueue. -/
def fixupCumulativeRunnableAvg (rq : StatRq) (demandScaledDelta predDemandScaledDelta : ℤ) :
    StatRq :=
  let cumulativeRunnableAvgScaled := rq.cumulativeRunnableAvgScaled + demandScaledDelta
  let predDemandsSumScaled := rq.predDemandsSumScaled + predDemandScaledDelta
  { rq with
    cumulativeRunnableAvgScaled := clampSum cumulativeRunnableAvgScaled
    predDemandsSumScaled := clampSum predDemandsSumScaled
    bug := rq.bug || cumulativeRunnableAvgScaled < 0 || predDemandsSumScaled < 0 }

def isGiantDemand (env : DemandEnv) (demandScaled : ℕ) : Bool :=
  700 * env.giantCap / 1024 < demandScaled

def fixupNrGiant (env : DemandEnv) (rq : StatRq) (p : DemandTask n) (updatedDemandScaled : ℕ) :
    StatRq × DemandTask n :=
  if isGiantDemand env updatedDemandScaled then
    if p.giant then (rq, p)
    else ({ rq with nrGiantTasks := rq.nrGiantTasks + 1 }, { p with giant := true })
  else if p.giant then
    ({ rq with
        nrGiantTasks := clampSum (rq.nrGiantTasks - 1)
        bug := rq.bug || rq.nrGiantTasks - 1 < 0 }, { p with giant := false })
  else (rq, p)

def fixupWaltSchedStatsCommon (env : DemandEnv) (rq : StatRq) (p : DemandTask n)
    (updatedDemandScaled updatedPredDemandScaled : ℕ) : StatRq × DemandTask n :=
  let rq := fixupCumulativeRunnableAvg rq ((updatedDemandScaled : ℤ) - p.demandScaled)
    ((updatedPredDemandScaled : ℤ) - p.predDemandScaled)
  if waltFairTask p then fixupNrGiant env rq p updatedDemandScaled else (rq, p)

/-! ### Demand updates -/

/-- `task_on_rq_queued` and `task_is_runnable` hold from an enqueue to the dequeue. -/
def DemandTask.queued (p : DemandTask n) : Bool := p.prevOnRq == .enqueued

def updateTrailblazerAccounting (env : DemandEnv) (rq : StatRq) (p : DemandTask n) (r : NrReading)
    (runtime runtimeScaled demand : ℕ) : StatRq × DemandTask n :=
  let isPrevTrailblazer := p.trailblazer
  let trailblazer := isTrailblazer env p runtime demand
  let p' :=
    { p with trailblazer := trailblazer, highUtilHistory := nextHighUtilHistory env p runtimeScaled }
  if p.queued && isPrevTrailblazer != trailblazer then
    -- the product sums are closed before the count changes
    let rq := schedUpdateNrProd rq r 0
    ({ rq with
        nrTrailblazerTasks :=
          if trailblazer then rq.nrTrailblazerTasks + 1 else rq.nrTrailblazerTasks - 1 }, p')
  else (rq, p')

/-- The end of both demand updates: a queued task's new values go into the sums, then into the
task. -/
def recordDemand (env : DemandEnv) (rq : StatRq) (p : DemandTask n)
    (demandScaled predDemandScaled : ℕ) : StatRq × DemandTask n :=
  let (rq, p) :=
    if p.queued then fixupWaltSchedStatsCommon env rq p demandScaled predDemandScaled else (rq, p)
  (rq, { p with demandScaled := demandScaled, predDemandScaled := predDemandScaled })

/-- `update_history`; `demand` and the other values that no function here reads are left out. -/
def updateHistory (env : DemandEnv) (rq : StatRq) (p : DemandTask n) (r : NrReading)
    (runtime : ℕ) (samples : ℤ) : StatRq × DemandTask n :=
  if runtime = 0 ∨ p.idle = true ∨ samples = 0 then (rq, p)
  else
    let runtimeScaled := toU16 (scaleTimeToUtil env runtime)
    let p := pushSamples p runtime runtimeScaled samples.toNat
    let demand := historyDemand env p runtime
    let (rq, p) :=
      if waltFairTask p && p.grp then
        updateTrailblazerAccounting env rq p r runtime runtimeScaled
          (policyDemand env.schedWindowStatsPolicy p.sumHistory runtime)
      else (rq, p)
    let (p, predDemandScaled) := predictAndUpdateBuckets p runtimeScaled
    recordDemand env rq p (toU16 (scaleTimeToUtil env demand)) predDemandScaled

def updateTaskPredDemand (env : DemandEnv) (rq : StatRq) (p : DemandTask n) (event : TaskEvent)
    (taskIsRunnable : Bool) : StatRq × DemandTask n :=
  if p.idle = true ∨ event ≠ .putPrevTask ∧ event ≠ .taskUpdate ∨
      event = .taskUpdate ∧ taskIsRunnable = false then (rq, p)
  else
    let currWindowScaled := toU16 (scaleTimeToUtil env p.currWindow)
    if currWindowScaled ≤ p.predDemandScaled then (rq, p)
    else
      recordDemand env rq p p.demandScaled (getPredBusy p (busyToBucket currWindowScaled) currWindowScaled)

/-! ### Hooks -/

structure HookEvent extends NrReading where
  schedDelayed : Bool
  enqueueDelayed : Bool
  taskFitsMax : Bool
  taskRtgHighPrio : Bool
  taskUtil : ℕ

def incRqWaltStats (rq : StatRq) (p : DemandTask n) (e : HookEvent) : StatRq × DemandTask n :=
  ({ rq with
      nrBigTasks := rq.nrBigTasks + p.misfit.toNat
      nrRtgHighPrioTasks := rq.nrRtgHighPrioTasks + e.taskRtgHighPrio.toNat
      nrTrailblazerTasks := rq.nrTrailblazerTasks + p.trailblazer.toNat
      nrGiantTasks := rq.nrGiantTasks + p.giant.toNat },
    { p with rtgHighPrio := e.taskRtgHighPrio })

def decRqWaltStats (rq : StatRq) (p : DemandTask n) : StatRq :=
  let nrBigTasks := rq.nrBigTasks - p.misfit.toNat
  let nrTrailblazerTasks := rq.nrTrailblazerTasks - p.trailblazer.toNat
  let nrGiantTasks := rq.nrGiantTasks - p.giant.toNat
  { rq with
    nrBigTasks := nrBigTasks
    nrRtgHighPrioTasks := rq.nrRtgHighPrioTasks - p.rtgHighPrio.toNat
    nrTrailblazerTasks := nrTrailblazerTasks
    nrGiantTasks := clampSum nrGiantTasks
    bug := rq.bug || nrGiantTasks < 0 || nrBigTasks < 0 || nrTrailblazerTasks < 0 }

/-- `android_rvh_enqueue_task`. The accounting call that completes a migration comes first, as a step of its
own. -/
def androidRvhEnqueueTask (rq : StatRq) (p : DemandTask n) (e : HookEvent) : StatRq × DemandTask n :=
  if e.schedDelayed && !e.enqueueDelayed then (rq, p)
  else
    let doubleEnqueue := p.prevOnRq == .enqueued
    let p := { p with prevOnRq := .enqueued }
    let rq := schedUpdateNrProd rq e.toNrReading 1
    let (rq, p) :=
      if waltFairTask p then
        let p := { p with misfit := !e.taskFitsMax }
        if doubleEnqueue then (rq, p) else incRqWaltStats rq p e
      else (rq, p)
    if doubleEnqueue then (rq, p)
    else (fixupCumulativeRunnableAvg rq p.demandScaled p.predDemandScaled, p)

def androidRvhDequeueTask (rq : StatRq) (p : DemandTask n) (e : HookEvent) : StatRq × DemandTask n :=
  -- the delayed dequeue was already accounted
  if e.schedDelayed && p.prevOnRq == .dequeued then (rq, p)
  else
    let doubleDequeue := p.prevOnRq == .dequeued
    let p := { p with prevOnRq := .dequeued }
    let rq := schedUpdateNrProd rq e.toNrReading (-1)
    if doubleDequeue then (rq, p)
    else
      let rq := if waltFairTask p then decRqWaltStats rq p else rq
      (fixupCumulativeRunnableAvg rq (-p.demandScaled) (-p.predDemandScaled), p)

def androidRvhUpdateMisfitStatus (rq : StatRq) (p : DemandTask n) (e : HookEvent) : StatRq × DemandTask n :=
  let misfitTaskLoad := if e.taskFitsMax then 0 else e.taskUtil
  let misfit : Bool := misfitTaskLoad ≠ 0
  let change : ℤ := misfit.toNat - p.misfit.toNat
  if change = 0 then (rq, p)
  else
    let rq := schedUpdateNrProd rq e.toNrReading 0
    ({ rq with
        nrBigTasks := rq.nrBigTasks + change
        bug := rq.bug || rq.nrBigTasks + change < 0 }, { p with misfit := misfit })

/-! ### All runqueues and all tasks -/

structure StatSys (τ : Type*) (n : ℕ) where
  /-- Not in the source: the time of the last event. -/
  clock : ℕ
  rq : Fin n → StatRq
  task : τ → DemandTask n

inductive StatOp (τ : Type*) (n : ℕ)
  | enqueue (q : τ) (e : HookEvent)
  | dequeue (q : τ) (e : HookEvent)
  | updateHistory (q : τ) (env : DemandEnv) (r : NrReading) (runtime : ℕ) (samples : ℤ)
  | updateTaskPredDemand (q : τ) (env : DemandEnv) (currTime : ℕ) (event : TaskEvent)
    (taskIsRunnable : Bool)
  | updateMisfitStatus (q : τ) (e : HookEvent)
  | others (q : τ) (w : WaltTask n) (prio : ℕ)
  | poll (currTime period : ℕ)

section
variable {τ : Type*} [DecidableEq τ]

def StatSys.on (s : StatSys τ n) (q : τ) (currTime : ℕ)
    (f : StatRq → DemandTask n → StatRq × DemandTask n) : Option (StatSys τ n) :=
  if s.clock ≤ currTime then
    let v := f (s.rq (s.task q).cpu) (s.task q)
    some
      { clock := currTime
        rq := Function.update s.rq (s.task q).cpu v.1
        task := Function.update s.task q v.2 }
  else none

/-- A task is enqueued once, keeps its runqueue and class while it is, and is runnable. A poll leaves at once, and is
no step, when no time has gone by since the last one. -/
def statStep (s : StatSys τ n) : StatOp τ n → Option (StatSys τ n)
  | .enqueue q e =>
    if (e.schedDelayed = true ∧ e.enqueueDelayed = false) ∨ (s.task q).queued = false then
      s.on q e.currTime fun rq p => androidRvhEnqueueTask rq p e
    else none
  | .dequeue q e =>
    if (s.task q).prevOnRq ≠ .never then s.on q e.currTime fun rq p => androidRvhDequeueTask rq p e
    else none
  | .updateHistory q env r runtime samples =>
    s.on q r.currTime fun rq p => updateHistory env rq p r runtime samples
  | .updateTaskPredDemand q env currTime event taskIsRunnable =>
    if (s.task q).queued = true → taskIsRunnable = true then
      s.on q currTime fun rq p => updateTaskPredDemand env rq p event taskIsRunnable
    else none
  | .updateMisfitStatus q e =>
    if (s.task q).queued = true ∧ waltFairTask (s.task q) = true then
      s.on q e.currTime fun rq p => androidRvhUpdateMisfitStatus rq p e
    else none
  | .others q w prio =>
    let p := { s.task q with toWaltTask := w, prio := prio }
    if (s.task q).queued = true → w.cpu = (s.task q).cpu ∧ waltFairTask p = waltFairTask (s.task q)
    then some { s with task := Function.update s.task q p }
    else none
  | .poll currTime period =>
    if s.clock ≤ currTime ∧ period ≠ 0 then
      some
        { s with clock := currTime, rq := fun i => (schedGetNrRunningAvg (s.rq i) currTime period).1 }
    else none

end

end VendorKernel.Walt
