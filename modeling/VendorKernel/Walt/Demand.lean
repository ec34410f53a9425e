import VendorKernel.Walt.BusyTime

/-! The demand of a task: the history of its windows, the prediction from its busy buckets, and
the detection of trailblazers. -/
namespace VendorKernel.Walt

variable {n : ℕ}

def toU16 (x : ℕ) : ℕ := x % 2 ^ 16

inductive PrevOnRq
  | never | enqueued | dequeued
  deriving DecidableEq

structure DemandTask (n : ℕ) extends WaltTask n where
  prio : ℕ
  prevOnRq : PrevOnRq
  demandScaled : ℕ
  predDemandScaled : ℕ
  trailblazer : Bool
  giant : Bool
  misfit : Bool
  rtgHighPrio : Bool
  sumHistory : Fin 5 → ℕ
  sumHistoryUtil : Fin 5 → ℕ
  cidx : Fin 5
  busyBuckets : Fin 16 → ℕ
  bucketBitmask : Fin 16 → Bool
  highUtilHistory : ℕ

structure DemandEnv where
  waltScaleDemandDivisor : ℕ
  schedWindowStatsPolicy : ℕ
  featTrailblazer : Bool
  pipelineInProgress : Bool
  rqClock : ℕ
  /-- `arch_scale_cpu_capacity` in the second largest cluster, or the only one -/
  giantCap : ℕ
  /-- `capacity_orig_of` in the largest cluster -/
  primeCapacity : ℕ

/-- No task is of the ext class here. -/
def waltFairTask (p : DemandTask n) : Bool := 100 ≤ p.prio && !p.idle

def scaleTimeToUtil (env : DemandEnv) (d : ℕ) : ℕ := d / env.waltScaleDemandDivisor

def scaleUtilToTime (env : DemandEnv) (util : ℕ) : ℕ := toU32 (util * env.waltScaleDemandDivisor)

/-! ### Prediction -/

/-- The lowest two buckets are one. -/
def busyToBucket (normalizedRt : ℕ) : ℕ := max 1 (min (normalizedRt / 64) 15)

def bucketIncrease (p : DemandTask n) (idx : ℕ) : DemandTask n :=
  { p with
    busyBuckets := fun i =>
      if i.val ≠ idx then p.busyBuckets i - 2
      else
        let step := if 16 ≤ p.busyBuckets i then 16 else 8
        min 255 (p.busyBuckets i + step)
    bucketBitmask := fun i => if i.val ≠ idx then p.bucketBitmask i && 2 < p.busyBuckets i else true }

def getPredBusy (p : DemandTask n) (start runtimeScaled : ℕ) : ℕ :=
  if isNewTask p.toWaltTask then runtimeScaled
  else
    match (List.finRange 16).find? fun i => start ≤ i.val && p.bucketBitmask i with
    | none => runtimeScaled
    | some first =>
      let dmin := if first.val < 2 then 0 else first.val * 64
      let dmax := (max 1 first.val + 1) * 64
      let ret :=
        match (List.finRange 5).find? fun i =>
          dmin ≤ p.sumHistoryUtil i && p.sumHistoryUtil i < dmax with
        | none => runtimeScaled
        | some i => p.sumHistoryUtil i
      let ret := if ret < dmin then (dmin + dmax) / 2 else ret
      max runtimeScaled ret

def predictAndUpdateBuckets (p : DemandTask n) (runtimeScaled : ℕ) : DemandTask n × ℕ :=
  let bidx := busyToBucket runtimeScaled
  (bucketIncrease p bidx, getPredBusy p bidx runtimeScaled)

/-! ### History -/

def pushSample (p : DemandTask n) (runtime runtimeScaled : ℕ) : DemandTask n :=
  { p with
    sumHistory := Function.update p.sumHistory p.cidx runtime
    sumHistoryUtil := Function.update p.sumHistoryUtil p.cidx runtimeScaled
    cidx := p.cidx + 1 }

def pushSamples (p : DemandTask n) (runtime runtimeScaled samples : ℕ) : DemandTask n :=
  (fun p => pushSample p runtime runtimeScaled)^[samples] p

def histAvg (hist : Fin 5 → ℕ) : ℕ := toU32 ((hist 0 + hist 1 + hist 2 + hist 3 + hist 4) / 5)

def histMax (hist : Fin 5 → ℕ) : ℕ :=
  max (hist 0) (max (hist 1) (max (hist 2) (max (hist 3) (hist 4))))

def policyDemand (policy : ℕ) (hist : Fin 5 → ℕ) (runtime : ℕ) : ℕ :=
  match policy with
  | 0 => runtime
  | 1 => histMax hist
  | 3 => histAvg hist
  | _ => max (histAvg hist) runtime

/-! ### Trailblazers -/

def trailblazerThres : ℕ := 230
def trailblazerBypass : ℕ := 243
def finalBucketStepUp : ℕ := 8
def pipelineIdleNs : ℕ := 3000000000

def currentHighUtilHistory (env : DemandEnv) (p : DemandTask n) : ℕ :=
  if env.featTrailblazer ∧ (p.markStart + pipelineIdleNs) % 2 ^ 64 < env.rqClock then 0
  else p.highUtilHistory

def isTrailblazer (env : DemandEnv) (p : DemandTask n) (runtime demand : ℕ) : Bool :=
  !env.pipelineInProgress && env.featTrailblazer &&
    (demand ≤ runtime && trailblazerThres ≤ currentHighUtilHistory env p ||
      trailblazerBypass ≤ currentHighUtilHistory env p)

def nextHighUtilHistory (env : DemandEnv) (p : DemandTask n) (runtimeScaled : ℕ) : ℕ :=
  let history := currentHighUtilHistory env p
  if toU16 (env.primeCapacity - env.primeCapacity / 8) ≤ runtimeScaled then
    min 255 (history + finalBucketStepUp)
  else history - 1

/-- The demand that `update_history` arrives at: a trailblazer gets the highest one. -/
def historyDemand (env : DemandEnv) (p : DemandTask n) (runtime : ℕ) : ℕ :=
  let demand := policyDemand env.schedWindowStatsPolicy p.sumHistory runtime
  if waltFairTask p ∧ p.grp ∧ isTrailblazer env p runtime demand then scaleUtilToTime env 1024
  else demand

end VendorKernel.Walt
