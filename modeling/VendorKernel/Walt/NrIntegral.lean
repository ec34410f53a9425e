import Mathlib.Tactic.Ring
import VendorKernel.Lib.Integral
import VendorKernel.Walt.StatSums

/-! The product sums of `sched_avg.c` are the time integrals of the counters, as long as every
change of a counter comes after the sums have been closed at its time. -/
namespace VendorKernel.Walt

open Machine StatRq Option Function

variable {n t d d' runtime : ℕ}

structure SameTotals (t : ℕ) (rq rq' : StatRq) : Prop where
  nr : rq'.tmpNr t = rq.tmpNr t
  misfit : rq'.tmpMisfit t = rq.tmpMisfit t
  giant : rq'.tmpGiant t = rq.tmpGiant t

structure SameSums (rq rq' : StatRq) : Prop where
  nr : rq'.nr = rq.nr
  lastTime : rq'.lastTime = rq.lastTime
  nrProdSum : rq'.nrProdSum = rq.nrProdSum
  nrBigProdSum : rq'.nrBigProdSum = rq.nrBigProdSum
  nrGiantProdSum : rq'.nrGiantProdSum = rq.nrGiantProdSum

section
variable {t : ℕ} {rq rq' rq'' : StatRq}

theorem SameTotals.refl (t : ℕ) (rq : StatRq) : SameTotals t rq rq := ⟨rfl, rfl, rfl⟩

theorem SameTotals.trans (h : SameTotals t rq rq') (h' : SameTotals t rq' rq'') : SameTotals t rq rq'' :=
  ⟨h'.nr.trans h.nr, h'.misfit.trans h.misfit, h'.giant.trans h.giant⟩

theorem sameTotals_schedUpdateNrProd (rq : StatRq) (r : NrReading) (enq : ℤ) :
    SameTotals r.currTime rq (schedUpdateNrProd rq r enq) := by
  constructor
  · simp [tmpNr, schedUpdateNrProd]
  · simp [tmpMisfit, schedUpdateNrProd]
  · simp [tmpGiant, schedUpdateNrProd]

theorem SameSums.sameTotals_of_closed (h : SameSums rq rq') (hcl : rq.lastTime = t) : SameTotals t rq rq' := by
  constructor
  · simp only [tmpNr, h.nr, h.lastTime, h.nrProdSum]
  · simp [tmpMisfit, h.lastTime, h.nrBigProdSum, hcl]
  · simp [tmpGiant, h.lastTime, h.nrGiantProdSum, hcl]

theorem SameSums.sameTotals (h : SameSums rq rq') (hbig : rq'.nrBigTasks = rq.nrBigTasks)
    (hgi : rq'.nrGiantTasks = rq.nrGiantTasks) : SameTotals t rq rq' := by
  constructor
  · simp only [tmpNr, h.nr, h.lastTime, h.nrProdSum]
  · simp only [tmpMisfit, h.lastTime, h.nrBigProdSum, hbig]
  · simp only [tmpGiant, h.lastTime, h.nrGiantProdSum, hgi]

end

section
variable {rq : StatRq} {p : DemandTask n} {env : DemandEnv}

section
variable (env : DemandEnv) (rq : StatRq) (p : DemandTask n) (d : ℕ)

theorem sameSums_fixupNrGiant : SameSums rq (fixupNrGiant env rq p d).1 := by
  unfold fixupNrGiant
  split
  · split <;> constructor <;> rfl
  · split <;> constructor <;> rfl

theorem fixupNrGiant_counts :
    (fixupNrGiant env rq p d).1.nrBigTasks = rq.nrBigTasks ∧
      (isGiantDemand env d = p.giant → (fixupNrGiant env rq p d).1.nrGiantTasks = rq.nrGiantTasks) := by
  unfold fixupNrGiant
  cases isGiantDemand env d <;> cases p.giant <;> simp

end

theorem sameTotals_recordDemand
    (h : rq.lastTime = t ∨ (p.queued = true → waltFairTask p = true → isGiantDemand env d = p.giant)) :
    SameTotals t rq (recordDemand env rq p d d').1 := by
  unfold recordDemand
  cases hq : p.queued with
  | false => exact .refl t rq
  | true =>
    unfold fixupWaltSchedStatsCommon
    generalize hrq₁ : fixupCumulativeRunnableAvg rq _ _ = rq₁
    have hlast : rq₁.lastTime = rq.lastTime := by rw [← hrq₁]; rfl
    have hsums : SameTotals t rq rq₁ := by
      rw [← hrq₁]
      exact ⟨rfl, rfl, rfl⟩
    cases hfair : waltFairTask p with
    | false => exact hsums
    | true =>
      have hfix := sameSums_fixupNrGiant env rq₁ p d
      apply hsums.trans
      rcases h with hcl | hsame
      · exact hfix.sameTotals_of_closed (hlast.trans hcl)
      · obtain ⟨hbig, hgi⟩ := fixupNrGiant_counts env rq₁ p d
        exact hfix.sameTotals hbig (hgi (hsame hq hfair))

theorem updateTrailblazerAccounting_closes (env : DemandEnv) (rq : StatRq) (p : DemandTask n)
    (r : NrReading) (runtime runtimeScaled demand : ℕ) :
    let v := if waltFairTask p && p.grp then
        updateTrailblazerAccounting env rq p r runtime runtimeScaled demand
      else (rq, p)
    SameTotals r.currTime rq v.1 ∧
      (v.2.queued = p.queued ∧ waltFairTask v.2 = waltFairTask p ∧ v.2.giant = p.giant) ∧
      (rq.lastTime = r.currTime ∨ waltFairTask p = true ∧ p.grp = true ∧ p.queued = true ∧
        isTrailblazer env p runtime demand ≠ p.trailblazer → v.1.lastTime = r.currTime) := by
  unfold updateTrailblazerAccounting
  dsimp only
  split
  · split
    · have hclose := sameTotals_schedUpdateNrProd rq r 0
      exact ⟨⟨hclose.nr, hclose.misfit, hclose.giant⟩, ⟨rfl, rfl, rfl⟩, fun _ => rfl⟩
    · next hsame =>
      refine ⟨.refl _ rq, ⟨rfl, rfl, rfl⟩, ?_⟩
      intro h
      rcases h with hcl | ⟨-, -, hq, hflip⟩
      · exact hcl
      · exact (hsame (by simp [hq, hflip.symm])).elim
  · next hout =>
    refine ⟨.refl _ rq, ⟨rfl, rfl, rfl⟩, ?_⟩
    intro h
    rcases h with hcl | ⟨hfair, hgrp, -⟩
    · exact hcl
    · exact (hout (by simp [hfair, hgrp])).elim

def pushedTask (env : DemandEnv) (p : DemandTask n) (runtime : ℕ) (samples : ℤ) : DemandTask n :=
  pushSamples p runtime (toU16 (scaleTimeToUtil env runtime)) samples.toNat

/-- A demand update does not make or unmake a giant that is being counted, unless the sums are closed at its
time. -/
def HistoryClosed (env : DemandEnv) (rq : StatRq) (p : DemandTask n) (r : NrReading) (runtime : ℕ)
    (samples : ℤ) : Prop :=
  let p₁ := pushedTask env p runtime samples
  rq.lastTime = r.currTime ∨ runtime = 0 ∨ samples = 0 ∨ p.queued = false ∨
    waltFairTask p = false ∨
    isGiantDemand env (toU16 (scaleTimeToUtil env (historyDemand env p₁ runtime))) = p.giant ∨
    p.grp = true ∧ isTrailblazer env p₁ runtime
      (policyDemand env.schedWindowStatsPolicy p₁.sumHistory runtime) ≠ p.trailblazer

theorem sameTotals_updateHistory {r : NrReading} {samples : ℤ} (h : HistoryClosed env rq p r runtime samples) :
    SameTotals r.currTime rq (updateHistory env rq p r runtime samples).1 := by
  unfold HistoryClosed pushedTask at h
  unfold updateHistory
  split
  · exact .refl _ rq
  · next hgo =>
    dsimp only at h ⊢
    generalize toU16 (scaleTimeToUtil env runtime) = runtimeScaled at h ⊢
    have hpush := sameCounted_pushSamples p runtime runtimeScaled samples.toNat
    generalize pushSamples p runtime runtimeScaled samples.toNat = p₁ at h hpush ⊢
    obtain ⟨htot, ⟨hqd, hfair, hgi⟩, hcl⟩ :=
      updateTrailblazerAccounting_closes env rq p₁ r runtime runtimeScaled
        (policyDemand env.schedWindowStatsPolicy p₁.sumHistory runtime)
    generalize (if waltFairTask p₁ && p₁.grp then _ else (rq, p₁)) = v₂ at htot hqd hfair hgi hcl
    have hbuckets := sameCounted_bucketIncrease v₂.2 (busyToBucket runtimeScaled)
    refine htot.trans (sameTotals_recordDemand ?_)
    dsimp only [predictAndUpdateBuckets]
    rw [hbuckets.queued, hbuckets.fair, hbuckets.giant, hqd, hfair, hgi, hpush.queued, hpush.fair, hpush.giant]
    rw [hpush.queued, hpush.fair, hpush.task, hpush.trailblazer] at hcl
    rcases h with hcl' | rfl | rfl | hq | hf | hsame | ⟨hgrp, hflip⟩
    · exact .inl (hcl (.inl hcl'))
    · exact (hgo (.inl rfl)).elim
    · exact (hgo (.inr (.inr rfl))).elim
    · exact .inr fun hq' => by simp [hq] at hq'
    · exact .inr fun _ hf' => by simp [hf] at hf'
    · exact .inr fun _ _ => hsame
    · by_cases hctd : p.queued = true ∧ waltFairTask p = true
      · exact .inl (hcl (.inr ⟨hctd.2, hgrp, hctd.1, hflip⟩))
      · exact .inr fun hq hf => (hctd ⟨hq, hf⟩).elim

/-- The same for the prediction, which re-examines the demand the task has. -/
def PredDemandClosed (env : DemandEnv) (rq : StatRq) (p : DemandTask n) (currTime : ℕ)
    (event : TaskEvent) (taskIsRunnable : Bool) : Prop :=
  rq.lastTime = currTime ∨ event ≠ .putPrevTask ∧ event ≠ .taskUpdate ∨
    event = .taskUpdate ∧ taskIsRunnable = false ∨
    toU16 (scaleTimeToUtil env p.currWindow) ≤ p.predDemandScaled ∨ p.queued = false ∨
    waltFairTask p = false ∨ isGiantDemand env p.demandScaled = p.giant

theorem sameTotals_updateTaskPredDemand {event : TaskEvent} {taskIsRunnable : Bool}
    (h : PredDemandClosed env rq p t event taskIsRunnable) :
    SameTotals t rq (updateTaskPredDemand env rq p event taskIsRunnable).1 := by
  unfold updateTaskPredDemand
  split
  · exact .refl _ rq
  · next hgo =>
    dsimp only
    split
    · exact .refl _ rq
    · next hgrow =>
      apply sameTotals_recordDemand
      rcases h with hcl | hevent | hrun | hsm | hq | hf | hsame
      · exact .inl hcl
      · exact (hgo (.inr (.inl hevent))).elim
      · exact (hgo (.inr (.inr hrun))).elim
      · exact (hgrow hsm).elim
      · exact .inr fun hq' => by simp [hq] at hq'
      · exact .inr fun _ hf' => by simp [hf] at hf'
      · exact .inr fun _ _ => hsame

section
variable (rq : StatRq) (p : DemandTask n) (e : HookEvent)

theorem sameTotals_enqueue : SameTotals e.currTime rq (androidRvhEnqueueTask rq p e).1 := by
  unfold androidRvhEnqueueTask
  split
  · exact .refl _ rq
  · refine (sameTotals_schedUpdateNrProd rq e.toNrReading 1).trans
      (SameSums.sameTotals_of_closed ?_ rfl)
    dsimp only
    generalize waltFairTask _ = fair
    generalize (p.prevOnRq == .enqueued) = doubleEnqueue
    cases fair <;> cases doubleEnqueue <;> constructor <;> rfl

theorem sameTotals_dequeue : SameTotals e.currTime rq (androidRvhDequeueTask rq p e).1 := by
  unfold androidRvhDequeueTask
  split
  · exact .refl _ rq
  · refine (sameTotals_schedUpdateNrProd rq e.toNrReading (-1)).trans
      (SameSums.sameTotals_of_closed ?_ rfl)
    dsimp only
    split
    · constructor <;> rfl
    · split <;> constructor <;> rfl

theorem sameTotals_updateMisfitStatus : SameTotals e.currTime rq (androidRvhUpdateMisfitStatus rq p e).1 := by
  unfold androidRvhUpdateMisfitStatus
  dsimp only
  generalize decide ((if e.taskFitsMax = true then 0 else e.taskUtil) ≠ 0) = misfit
  split
  · exact .refl _ rq
  · refine (sameTotals_schedUpdateNrProd rq e.toNrReading 0).trans
      (SameSums.sameTotals_of_closed ?_ rfl)
    constructor <;> rfl

end

end

/-! ### Runs -/

section
variable {τ : Type*}

/-- The step condition, between two polls. -/
def StatOp.ClosedFirst (s : StatSys τ n) : StatOp τ n → Prop
  | .updateHistory q env r runtime samples =>
    HistoryClosed env (s.rq (s.task q).cpu) (s.task q) r runtime samples
  | .updateTaskPredDemand q env currTime event taskIsRunnable =>
    PredDemandClosed env (s.rq (s.task q).cpu) (s.task q) currTime event taskIsRunnable
  | .poll _ _ => False
  | _ => True

instance (s : StatSys τ n) (op : StatOp τ n) : Decidable (op.ClosedFirst s) := by
  cases op <;> unfold StatOp.ClosedFirst HistoryClosed PredDemandClosed <;> infer_instance

variable [DecidableEq τ]

theorem sameTotals_on {s s' : StatSys τ n} {q : τ} {f : StatRq → DemandTask n → StatRq × DemandTask n}
    (hf : SameTotals t (s.rq (s.task q).cpu) (f (s.rq (s.task q).cpu) (s.task q)).1) (hs : s.on q t f = some s')
    (r : Fin n) : SameTotals s'.clock (s.rq r) (s'.rq r) := by
  obtain ⟨-, ⟨⟩⟩ := ite_none_right_eq_some.mp hs
  dsimp only
  by_cases hr : r = (s.task q).cpu
  · subst hr
    rw [update_self]
    exact hf
  · rw [update_of_ne hr]
    exact .refl t _

/-- Steps that close the sums first keep the totals. -/
theorem sameTotals_statStep (r : Fin n) (s : StatSys τ n) (op : StatOp τ n) (s' : StatSys τ n)
    (h : op.ClosedFirst s) (hs : statStep s op = some s') :
    SameTotals s'.clock (s.rq r) (s'.rq r) := by
  cases op with
  | enqueue q e =>
    obtain ⟨-, hs⟩ := ite_none_right_eq_some.mp hs
    exact sameTotals_on (sameTotals_enqueue _ _ e) hs r
  | dequeue q e =>
    obtain ⟨-, hs⟩ := ite_none_right_eq_some.mp hs
    exact sameTotals_on (sameTotals_dequeue _ _ e) hs r
  | updateHistory q env reading runtime samples =>
    simp only [statStep] at hs
    exact sameTotals_on (sameTotals_updateHistory h) hs r
  | updateTaskPredDemand q env currTime event taskIsRunnable =>
    obtain ⟨-, hs⟩ := ite_none_right_eq_some.mp hs
    exact sameTotals_on (sameTotals_updateTaskPredDemand h) hs r
  | updateMisfitStatus q e =>
    obtain ⟨-, hs⟩ := ite_none_right_eq_some.mp hs
    exact sameTotals_on (sameTotals_updateMisfitStatus _ _ e) hs r
  | others q w prio =>
    obtain ⟨-, ⟨⟩⟩ := ite_none_right_eq_some.mp hs
    exact .refl _ _
  | poll currTime period => exact h.elim

/-- After a poll, through every run of events that meet the step condition, what the next poll
finds is the time integral of the three counters since. -/
theorem nr_prod_sums_are_integrals {s₀ s₁ s : StatSys τ n} {t₀ period : ℕ}
    (hpoll : statStep s₀ (.poll t₀ period) = some s₁) (ops : List (StatOp τ n))
    (hclosed : Meets statStep StatOp.ClosedFirst s₁ ops) (hrun : run statStep s₁ ops = some s)
    (r : Fin n) (t : ℕ) :
    (s.rq r).tmpNr t = integral statStep StatSys.clock (fun s => (s.rq r).nr) t s₁ ops ∧
      (s.rq r).tmpMisfit t = integral statStep StatSys.clock (fun s => (s.rq r).nrBigTasks) t s₁ ops ∧
      (s.rq r).tmpGiant t = integral statStep StatSys.clock (fun s => (s.rq r).nrGiantTasks) t s₁ ops := by
  have hini : (s₁.rq r).tmpNr s₁.clock = 0 ∧ (s₁.rq r).tmpMisfit s₁.clock = 0 ∧ (s₁.rq r).tmpGiant s₁.clock = 0 := by
    obtain ⟨-, ⟨⟩⟩ := ite_none_right_eq_some.mp hpoll
    simp [schedGetNrRunningAvg, tmpNr, tmpMisfit, tmpGiant]
  have hstep := sameTotals_statStep (τ := τ) r
  have hgrow : ∀ (a x : ℤ) (l t t' : ℕ), a + x * ((t' : ℤ) - l) = a + x * ((t : ℤ) - l) + x * ((t' : ℤ) - t) := by
    intro a x l t t'
    ring
  have hnr := total_eq_integral (fun (s : StatSys τ n) t => (s.rq r).tmpNr t)
    (fun s => (s.rq r).nr) (fun s t t' => hgrow _ _ _ t t')
    (fun s a s' ha hs => (hstep s a s' ha hs).nr) t hclosed hrun
  have hbig := total_eq_integral (fun (s : StatSys τ n) t => (s.rq r).tmpMisfit t)
    (fun s => (s.rq r).nrBigTasks) (fun s t t' => hgrow _ _ _ t t')
    (fun s a s' ha hs => (hstep s a s' ha hs).misfit) t hclosed hrun
  have hgi := total_eq_integral (fun (s : StatSys τ n) t => (s.rq r).tmpGiant t)
    (fun s => (s.rq r).nrGiantTasks) (fun s t t' => hgrow _ _ _ t t')
    (fun s a s' ha hs => (hstep s a s' ha hs).giant) t hclosed hrun
  rw [hini.1, zero_add] at hnr
  rw [hini.2.1, zero_add] at hbig
  rw [hini.2.2, zero_add] at hgi
  exact ⟨hnr, hbig, hgi⟩

end

def closedTrace : List (StatOp (Fin 1) 1) :=
  [.enqueue 0 (hookAt 2000 0 true), .updateMisfitStatus 0 (hookAt 9000000 1 false),
    .updateHistory 0 (sampleEnv 9000000) ⟨9000000, 1⟩ 8000000 1, .dequeue 0 (hookAt 12000000 1 true)]

/-- The demand update comes at the time of a misfit change of the same task. -/
theorem nr_prod_sums_are_integrals_closedTrace :
    ∃ s₁ s : StatSys (Fin 1) 1,
      statStep (.init 1000 fun _ => freshTask 0 false) (.poll 1000 1) = some s₁ ∧
      run statStep s₁ closedTrace = some s ∧ (s.rq 0).tmpGiant 13000000 = 3000000 ∧
      (s.rq 0).tmpGiant 13000000 = integral statStep StatSys.clock
        (fun s => (s.rq 0).nrGiantTasks) 13000000 s₁ closedTrace :=
  ⟨_, _, (some_get (by decide +kernel)).symm, (some_get (by decide +kernel)).symm,
    by decide +kernel,
    (nr_prod_sums_are_integrals (some_get (by decide +kernel)).symm closedTrace
      (by decide +kernel) (some_get _).symm 0 13000000).2.2⟩

/-- A task becomes a giant 10 ms after the sums were closed: the whole 10 ms are charged to the
new count. -/
theorem nr_giant_prod_sum_too_large :
    ∃ s₁ s : StatSys (Fin 1) 1,
      statStep (.init 1000 fun _ => freshTask 0 false) (.poll 1000 1) = some s₁ ∧
      run statStep s₁ [.enqueue 0 (hookAt 2000 0 true),
        .updateHistory 0 (sampleEnv 10002000) ⟨10002000, 1⟩ 8000000 1] = some s ∧
      (s.rq 0).tmpGiant 10003000 = 10001000 ∧
      integral statStep StatSys.clock (fun s => (s.rq 0).nrGiantTasks) 10003000 s₁
        [.enqueue 0 (hookAt 2000 0 true), .updateHistory 0 (sampleEnv 10002000) ⟨10002000, 1⟩ 8000000 1] = 1000 :=
  ⟨_, _, (some_get (by decide +kernel)).symm, (some_get (by decide +kernel)).symm,
    by decide +kernel, by decide +kernel⟩

end VendorKernel.Walt
