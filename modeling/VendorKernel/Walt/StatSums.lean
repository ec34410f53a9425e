import Mathlib.Algebra.BigOperators.Ring.Finset
import VendorKernel.Lib.Tally
import VendorKernel.Walt.RqStats

/-! The counts of a runqueue are sums over the tasks enqueued on it. A call on one task keeps what
the other tasks contribute. -/
namespace VendorKernel.Walt

open Machine Tally DemandTask StatRq Bool Function Finset Option Nat

variable {n prio t : ℕ}

inductive Stat
  | big | rtgHighPrio | trailblazer | giant | demand | predDemand

def StatRq.sum (rq : StatRq) : Stat → ℤ
  | .big => rq.nrBigTasks
  | .rtgHighPrio => rq.nrRtgHighPrioTasks
  | .trailblazer => rq.nrTrailblazerTasks
  | .giant => rq.nrGiantTasks
  | .demand => rq.cumulativeRunnableAvgScaled
  | .predDemand => rq.predDemandsSumScaled

def DemandTask.weight (p : DemandTask n) : Stat → ℕ
  | .big => (waltFairTask p && p.misfit).toNat
  | .rtgHighPrio => (waltFairTask p && p.rtgHighPrio).toNat
  | .trailblazer => (waltFairTask p && p.trailblazer).toNat
  | .giant => (waltFairTask p && p.giant).toNat
  | .demand => p.demandScaled
  | .predDemand => p.predDemandScaled

def DemandTask.enqueuedOn (p : DemandTask n) (r : Fin n) : Prop := p.queued = true ∧ p.cpu = r

instance (p : DemandTask n) (r : Fin n) : Decidable (p.enqueuedOn r) :=
  inferInstanceAs (Decidable (_ ∧ _))

def DemandTask.share (p : DemandTask n) (r : Fin n) (k : Stat) : ℕ :=
  if p.enqueuedOn r then p.weight k else 0

/-- A call on a task keeps the task on its runqueue, keeps what the others contribute, and takes
no branch for negative values. -/
structure Mirrored (rq : StatRq) (p : DemandTask n) (v : StatRq × DemandTask n) : Prop where
  cpu : v.2.cpu = p.cpu
  rest : ∀ k, v.1.sum k - v.2.share p.cpu k = rq.sum k - p.share p.cpu k
  bug : v.1.bug = rq.bug

def Covers (rq : StatRq) (p : DemandTask n) : Prop := ∀ k, (p.share p.cpu k : ℤ) ≤ rq.sum k

section
variable {rq : StatRq} {p : DemandTask n} {v w : StatRq × DemandTask n}

theorem Mirrored.refl (rq : StatRq) (p : DemandTask n) : Mirrored rq p (rq, p) :=
  ⟨rfl, fun _ => rfl, rfl⟩

theorem Mirrored.trans (h : Mirrored rq p v) (h' : Mirrored v.1 v.2 w) : Mirrored rq p w := by
  refine ⟨h'.cpu.trans h.cpu, ?_, h'.bug.trans h.bug⟩
  intro k
  have hrest := h'.rest k
  rw [h.cpu] at hrest
  exact hrest.trans (h.rest k)

theorem Mirrored.covers (h : Mirrored rq p v) (hcov : Covers rq p) : Covers v.1 v.2 := by
  intro k
  have hrest := h.rest k
  have hk := hcov k
  rw [h.cpu]
  omega

theorem share_of_queued (h : p.queued = true) (k : Stat) : p.share p.cpu k = p.weight k :=
  if_pos ⟨h, rfl⟩

theorem share_of_not_queued (h : p.queued = false) (r : Fin n) (k : Stat) : p.share r k = 0 := by
  simp [share, enqueuedOn, h]

theorem mirrored_of (q q' : Bool) (hcpu : v.2.cpu = p.cpu) (hq : p.queued = q) (hq' : v.2.queued = q')
    (hsum : ∀ k, v.1.sum k = rq.sum k + (bif q' then v.2.weight k else 0) - bif q then p.weight k else 0)
    (hbug : v.1.bug = rq.bug) : Mirrored rq p v := by
  refine ⟨hcpu, ?_, hbug⟩
  intro k
  cases q <;> cases q' <;> simp [share, enqueuedOn, hq, hq', hcpu, hsum k, add_sub_right_comm]

end

/-! ### Demand updates -/

@[simp] theorem sum_schedUpdateNrProd (rq : StatRq) (r : NrReading) (enq : ℤ) (k : Stat) :
    (schedUpdateNrProd rq r enq).sum k = rq.sum k := by
  cases k <;> rfl

theorem clampSum_of_nonneg {x : ℤ} (h : 0 ≤ x) : clampSum x = x := if_neg (not_lt.mpr h)

theorem fixupCumulativeRunnableAvg_of_nonneg {rq : StatRq} {d d' : ℤ}
    (hd : 0 ≤ rq.cumulativeRunnableAvgScaled + d) (hd' : 0 ≤ rq.predDemandsSumScaled + d') :
    fixupCumulativeRunnableAvg rq d d' =
      { rq with
        cumulativeRunnableAvgScaled := rq.cumulativeRunnableAvgScaled + d
        predDemandsSumScaled := rq.predDemandsSumScaled + d' } := by
  simp [fixupCumulativeRunnableAvg, clampSum_of_nonneg hd, clampSum_of_nonneg hd', not_lt.mpr hd, not_lt.mpr hd']

section
variable {rq : StatRq} {p : DemandTask n} {env : DemandEnv}

theorem Covers.weight_le (h : Covers rq p) (hq : p.queued = true) (k : Stat) : (p.weight k : ℤ) ≤ rq.sum k := by
  rw [← share_of_queued hq]
  exact h k

theorem mirrored_fixupNrGiant (env : DemandEnv) (hcov : Covers rq p) (hq : p.queued = true)
    (hfair : waltFairTask p = true) (d : ℕ) : Mirrored rq p (fixupNrGiant env rq p d) := by
  have hgi := hcov.weight_le hq .giant
  simp only [weight, hfair, Bool.true_and, sum] at hgi
  have hfair' : ∀ g, waltFairTask { p with giant := g } = true := fun _ => hfair
  unfold fixupNrGiant
  cases hg : p.giant with
  | true =>
    rw [hg] at hgi
    have hpos : 0 ≤ rq.nrGiantTasks - 1 := by simpa using hgi
    split
    · exact .refl rq p
    · refine mirrored_of true true rfl hq hq ?_ ?_
      · intro k
        cases k <;> simp [sum, weight, hfair, hfair', hg, clampSum_of_nonneg hpos]
      · rw [decide_eq_false (not_lt.mpr hpos), Bool.or_false]
        rfl
  | false =>
    split
    · refine mirrored_of true true rfl hq hq ?_ rfl
      intro k
      cases k <;> simp [sum, weight, hfair, hfair', hg]
    · exact .refl rq p

theorem mirrored_fixupCumulativeRunnableAvg (hcov : Covers rq p) (hq : p.queued = true)
    (d d' : ℕ) :
    Mirrored rq p
      (fixupCumulativeRunnableAvg rq ((d : ℤ) - p.demandScaled) ((d' : ℤ) - p.predDemandScaled),
        { p with demandScaled := d, predDemandScaled := d' }) := by
  have hd := hcov.weight_le hq .demand
  have hd' := hcov.weight_le hq .predDemand
  dsimp only [weight, sum] at hd hd'
  rw [fixupCumulativeRunnableAvg_of_nonneg (by omega) (by omega)]
  refine mirrored_of true true rfl hq hq ?_ rfl
  intro k
  cases k
  case demand => simp only [sum, weight, cond_true]; omega
  case predDemand => simp only [sum, weight, cond_true]; omega
  all_goals exact (add_sub_cancel_right _ _).symm

theorem fixupNrGiant_demand (rq : StatRq) (p : DemandTask n) (d d' x : ℕ) :
    fixupNrGiant env rq { p with demandScaled := d, predDemandScaled := d' } x =
      ((fixupNrGiant env rq p x).1,
        { (fixupNrGiant env rq p x).2 with demandScaled := d, predDemandScaled := d' }) := by
  unfold fixupNrGiant
  split
  · split <;> rfl
  · split <;> rfl

theorem mirrored_recordDemand (hcov : Covers rq p) (d d' : ℕ) : Mirrored rq p (recordDemand env rq p d d') := by
  unfold recordDemand
  cases hq : p.queued with
  | false => exact mirrored_of false false rfl hq hq (by simp [weight]) rfl
  | true =>
    have hsums := mirrored_fixupCumulativeRunnableAvg hcov hq d d'
    unfold fixupWaltSchedStatsCommon
    cases hfair : waltFairTask p with
    | false => simpa [hfair] using hsums
    | true =>
      have hgi := mirrored_fixupNrGiant env (hsums.covers hcov) hq hfair d
      have hboth := hsums.trans hgi
      rw [fixupNrGiant_demand] at hboth
      simpa only [if_true] using hboth

theorem mirrored_updateTrailblazerAccounting (hfair : waltFairTask p = true) (r : NrReading)
    (runtime runtimeScaled demand : ℕ) :
    Mirrored rq p (updateTrailblazerAccounting env rq p r runtime runtimeScaled demand) := by
  unfold updateTrailblazerAccounting
  generalize isTrailblazer env p runtime demand = b
  generalize nextHighUtilHistory env p runtimeScaled = h
  have hfair' : waltFairTask { p with trailblazer := b, highUtilHistory := h } = true := hfair
  dsimp only
  cases hq : p.queued with
  | false =>
    rw [Bool.false_and]
    exact mirrored_of false false rfl hq hq (by simp [weight]) rfl
  | true =>
    by_cases hsame : p.trailblazer = b
    · rw [if_neg (by simp [hsame])]
      refine mirrored_of true true rfl hq hq ?_ rfl
      intro k
      cases k <;> simp [weight, hfair, hfair', hsame]
    · rw [if_pos (by simpa using hsame)]
      refine mirrored_of true true rfl hq hq ?_ rfl
      intro k
      have hold : p.trailblazer = !b := by simpa [eq_not] using hsame
      cases b <;> cases k <;>
        simp [sum, schedUpdateNrProd, weight, hfair, hfair', hold]

structure SameCounted (p p' : DemandTask n) : Prop where
  task : p'.toWaltTask = p.toWaltTask
  prio : p'.prio = p.prio
  prevOnRq : p'.prevOnRq = p.prevOnRq
  demandScaled : p'.demandScaled = p.demandScaled
  predDemandScaled : p'.predDemandScaled = p.predDemandScaled
  trailblazer : p'.trailblazer = p.trailblazer
  giant : p'.giant = p.giant
  misfit : p'.misfit = p.misfit
  rtgHighPrio : p'.rtgHighPrio = p.rtgHighPrio

section
variable {p' : DemandTask n}

theorem SameCounted.queued (h : SameCounted p p') : p'.queued = p.queued := by
  simp only [DemandTask.queued, h.prevOnRq]

theorem SameCounted.fair (h : SameCounted p p') : waltFairTask p' = waltFairTask p := by
  simp only [waltFairTask, h.prio, h.task]

theorem SameCounted.mirrored (h : SameCounted p p') : Mirrored rq p (rq, p') := by
  have hweight : p'.weight = p.weight := by
    funext k
    cases k <;> simp only [weight, h.fair, h.demandScaled, h.predDemandScaled,
      h.trailblazer, h.giant, h.misfit, h.rtgHighPrio]
  refine ⟨by rw [h.task], ?_, rfl⟩
  intro k
  simp only [share, enqueuedOn, h.task, h.queued, hweight]

theorem sameCounted_pushSamples (p : DemandTask n) (runtime runtimeScaled samples : ℕ) :
    SameCounted p (pushSamples p runtime runtimeScaled samples) := by
  induction samples with
  | zero => exact ⟨rfl, rfl, rfl, rfl, rfl, rfl, rfl, rfl, rfl⟩
  | succ k ih =>
    unfold pushSamples at ih ⊢
    rw [iterate_succ_apply']
    exact { ih with }

theorem sameCounted_bucketIncrease (p : DemandTask n) (idx : ℕ) : SameCounted p (bucketIncrease p idx) :=
  ⟨rfl, rfl, rfl, rfl, rfl, rfl, rfl, rfl, rfl⟩

end

/-- The demand of a queued task changes in the sums too. -/
theorem mirrored_updateHistory (hcov : Covers rq p) (r : NrReading) (runtime : ℕ) (samples : ℤ) :
    Mirrored rq p (updateHistory env rq p r runtime samples) := by
  unfold updateHistory
  split
  · exact .refl rq p
  · dsimp only
    generalize toU16 (scaleTimeToUtil env runtime) = runtimeScaled
    have hpush := sameCounted_pushSamples p runtime runtimeScaled samples.toNat
    generalize pushSamples p runtime runtimeScaled samples.toNat = p₁ at hpush
    have h₁ : Mirrored rq p (rq, p₁) := hpush.mirrored
    have h₂ : Mirrored rq p₁ (if waltFairTask p₁ && p₁.grp then
        updateTrailblazerAccounting env rq p₁ r runtime runtimeScaled
          (policyDemand env.schedWindowStatsPolicy p₁.sumHistory runtime)
        else (rq, p₁)) := by
      split
      · next hfair =>
        rw [and_eq_true] at hfair
        exact mirrored_updateTrailblazerAccounting hfair.1 r _ _ _
      · exact .refl rq p₁
    have h₁₂ := h₁.trans h₂
    generalize (if waltFairTask p₁ && p₁.grp then _ else (rq, p₁)) = v₂ at h₁₂
    have h₁₃ := h₁₂.trans (sameCounted_bucketIncrease v₂.2 (busyToBucket runtimeScaled)).mirrored
    exact h₁₃.trans (mirrored_recordDemand (h₁₃.covers hcov) _ _)

theorem mirrored_updateTaskPredDemand (hcov : Covers rq p) (event : TaskEvent)
    (taskIsRunnable : Bool) :
    Mirrored rq p (updateTaskPredDemand env rq p event taskIsRunnable) := by
  unfold updateTaskPredDemand
  split
  · exact .refl rq p
  · dsimp only
    split
    · exact .refl rq p
    · exact mirrored_recordDemand hcov _ _

end

/-! ### Hooks -/

section
variable {rq : StatRq} {p : DemandTask n}

theorem nonneg_of_covers (hcov : Covers rq p) (k : Stat) : 0 ≤ rq.sum k :=
  (Int.natCast_nonneg _).trans (hcov k)

theorem mirrored_enqueue (hcov : Covers rq p) (e : HookEvent)
    (hq : (e.schedDelayed = true ∧ e.enqueueDelayed = false) ∨ p.queued = false) :
    Mirrored rq p (androidRvhEnqueueTask rq p e) := by
  unfold androidRvhEnqueueTask
  by_cases hskip : (e.schedDelayed && !e.enqueueDelayed) = true
  · rw [if_pos hskip]
    exact .refl rq p
  · have hq : p.queued = false := by
      rcases hq with hdelayed | hq
      · simp [hdelayed] at hskip
      · exact hq
    have hdouble : (p.prevOnRq == .enqueued) = false := hq
    have hd : 0 ≤ rq.cumulativeRunnableAvgScaled + p.demandScaled :=
      Int.add_nonneg (nonneg_of_covers hcov .demand) (Int.natCast_nonneg _)
    have hd' : 0 ≤ rq.predDemandsSumScaled + p.predDemandScaled :=
      Int.add_nonneg (nonneg_of_covers hcov .predDemand) (Int.natCast_nonneg _)
    rw [if_neg hskip]
    rw [hdouble]
    cases hfair : waltFairTask p with
    | false =>
      have hfair' : waltFairTask { p with prevOnRq := .enqueued } = false := hfair
      simp only [hfair', false_eq_true, if_false]
      rw [fixupCumulativeRunnableAvg_of_nonneg (by exact hd) (by exact hd')]
      refine mirrored_of false true rfl hq rfl ?_ rfl
      intro k
      cases k <;> simp [sum, schedUpdateNrProd, weight, hfair']
    | true =>
      have hfair' : waltFairTask { p with prevOnRq := .enqueued } = true := hfair
      have hfair'' : waltFairTask { p with
        prevOnRq := .enqueued, misfit := !e.taskFitsMax,
        rtgHighPrio := e.taskRtgHighPrio } = true := hfair
      simp only [hfair', false_eq_true, if_false, if_true, incRqWaltStats]
      rw [fixupCumulativeRunnableAvg_of_nonneg (by exact hd) (by exact hd')]
      refine mirrored_of false true rfl hq rfl ?_ rfl
      intro k
      cases k <;> simp [sum, schedUpdateNrProd, weight, hfair'']

theorem decRqWaltStats_of_covers (hbig : (p.misfit.toNat : ℤ) ≤ rq.nrBigTasks)
    (htl : (p.trailblazer.toNat : ℤ) ≤ rq.nrTrailblazerTasks)
    (hgi : (p.giant.toNat : ℤ) ≤ rq.nrGiantTasks) :
    decRqWaltStats rq p =
      { rq with
        nrBigTasks := rq.nrBigTasks - p.misfit.toNat
        nrRtgHighPrioTasks := rq.nrRtgHighPrioTasks - p.rtgHighPrio.toNat
        nrTrailblazerTasks := rq.nrTrailblazerTasks - p.trailblazer.toNat
        nrGiantTasks := rq.nrGiantTasks - p.giant.toNat } := by
  have hbig' : ¬rq.nrBigTasks - p.misfit.toNat < 0 := by omega
  have htl' : ¬rq.nrTrailblazerTasks - p.trailblazer.toNat < 0 := by omega
  have hgi' : 0 ≤ rq.nrGiantTasks - p.giant.toNat := by omega
  unfold decRqWaltStats
  dsimp only
  rw [clampSum_of_nonneg hgi', decide_eq_false hbig', decide_eq_false htl', decide_eq_false (not_lt.mpr hgi')]
  simp only [Bool.or_false]

theorem mirrored_dequeue (hcov : Covers rq p) (e : HookEvent) (hini : p.prevOnRq ≠ .never) :
    Mirrored rq p (androidRvhDequeueTask rq p e) := by
  unfold androidRvhDequeueTask
  split
  · exact .refl rq p
  · by_cases h2 : p.prevOnRq = .dequeued
    · have hq : p.queued = false := by simp [queued, h2]
      rw [if_pos (by simpa using h2)]
      exact mirrored_of false false rfl hq rfl (by simp) rfl
    · have hq : p.queued = true := by
        cases hp : p.prevOnRq <;> simp_all [queued]
      have hd : 0 ≤ rq.cumulativeRunnableAvgScaled + -p.demandScaled :=
        Int.sub_nonneg.mpr (hcov.weight_le hq .demand)
      have hd' : 0 ≤ rq.predDemandsSumScaled + -p.predDemandScaled :=
        Int.sub_nonneg.mpr (hcov.weight_le hq .predDemand)
      rw [if_neg (by simpa using h2)]
      cases hfair : waltFairTask p with
      | false =>
        have hfair' : waltFairTask { p with prevOnRq := .dequeued } = false := hfair
        simp only [hfair', false_eq_true, if_false]
        rw [fixupCumulativeRunnableAvg_of_nonneg (by exact hd) (by exact hd')]
        refine mirrored_of true false rfl hq rfl ?_ rfl
        intro k
        cases k <;> simp [sum, schedUpdateNrProd, weight, hfair] <;> omega
      | true =>
        have hfair' : waltFairTask { p with prevOnRq := .dequeued } = true := hfair
        have hbig := hcov.weight_le hq .big
        have htl := hcov.weight_le hq .trailblazer
        have hgi := hcov.weight_le hq .giant
        simp only [weight, hfair, Bool.true_and, sum] at hbig htl hgi
        simp only [hfair', if_true]
        rw [decRqWaltStats_of_covers (by exact hbig) (by exact htl) (by exact hgi),
          fixupCumulativeRunnableAvg_of_nonneg (by exact hd) (by exact hd')]
        refine mirrored_of true false rfl hq rfl ?_ rfl
        intro k
        cases k <;> simp [sum, schedUpdateNrProd, weight, hfair] <;> omega

theorem mirrored_updateMisfitStatus (hcov : Covers rq p) (e : HookEvent) (hq : p.queued = true)
    (hfair : waltFairTask p = true) : Mirrored rq p (androidRvhUpdateMisfitStatus rq p e) := by
  have hbig := hcov.weight_le hq .big
  simp only [weight, hfair, Bool.true_and, sum] at hbig
  unfold androidRvhUpdateMisfitStatus
  dsimp only
  generalize decide ((if e.taskFitsMax = true then 0 else e.taskUtil) ≠ 0) = misfit
  have hfair' : waltFairTask { p with misfit := misfit } = true := hfair
  split
  · exact .refl rq p
  · refine mirrored_of true true rfl hq hq ?_ ?_
    · intro k
      cases k <;> simp [sum, schedUpdateNrProd, weight, hfair, hfair']
      omega
    · have hnn : ¬(schedUpdateNrProd rq e.toNrReading 0).nrBigTasks + ((misfit.toNat : ℤ) - p.misfit.toNat) < 0 := by
        dsimp only [schedUpdateNrProd]
        omega
      rw [decide_eq_false hnn, Bool.or_false]
      rfl

end

/-! ### Runs -/

section
variable {τ : Type*} [Fintype τ] {s s' : StatSys τ n} {q : τ} {p : DemandTask n}

structure StatSys.Inv (s : StatSys τ n) : Prop where
  sums : ∀ r k, (s.rq r).sum k = ∑ q, ((s.task q).share r k : ℤ)
  bug : ∀ r, (s.rq r).bug = false

theorem StatSys.Inv.covers (h : s.Inv) (q : τ) : Covers (s.rq (s.task q).cpu) (s.task q) := by
  intro k
  rw [h.sums]
  exact single_le_sum (fun q' _ => Int.natCast_nonneg ((s.task q').share (s.task q).cpu k)) (mem_univ q)

theorem share_of_ne {r : Fin n} (hr : p.cpu ≠ r) (k : Stat) : p.share r k = 0 :=
  if_neg fun h => hr h.2

theorem share_others {w : WaltTask n}
    (h : p.queued = true → w.cpu = p.cpu ∧ waltFairTask { p with toWaltTask := w, prio := prio } = waltFairTask p)
    (r : Fin n) (k : Stat) : ({ p with toWaltTask := w, prio := prio } : DemandTask n).share r k = p.share r k := by
  cases hq : p.queued with
  | false => rw [share_of_not_queued hq, share_of_not_queued (by exact hq)]
  | true =>
    obtain ⟨hcpu, hfair⟩ := h hq
    have hweight : ({ p with toWaltTask := w, prio := prio } : DemandTask n).weight k = p.weight k := by
      cases k <;> simp only [weight, hfair]
    simp only [share, enqueuedOn, hcpu, hweight]
    rfl

variable [DecidableEq τ]

theorem inv_on (h : s.Inv) {f : StatRq → DemandTask n → StatRq × DemandTask n}
    (hf : Mirrored (s.rq (s.task q).cpu) (s.task q) (f (s.rq (s.task q).cpu) (s.task q)))
    (hs : s.on q t f = some s') : s'.Inv := by
  obtain ⟨-, ⟨⟩⟩ := ite_none_right_eq_some.mp hs
  generalize f (s.rq (s.task q).cpu) (s.task q) = v at hf
  constructor
  · intro r k
    have hsum := sum_update (fun p : DemandTask n => (p.share r k : ℤ)) s.task q v.2
    have hold := h.sums r k
    dsimp only at hsum ⊢
    by_cases hr : r = (s.task q).cpu
    · subst hr
      have hrest := hf.rest k
      rw [update_self]
      omega
    · rw [share_of_ne (Ne.symm hr), share_of_ne (hf.cpu ▸ Ne.symm hr)] at hsum
      rw [update_of_ne hr]
      omega
  · intro r
    by_cases hr : r = (s.task q).cpu <;> simp [hr, hf.bug, h.bug]

/-- Every hook keeps the sums. -/
theorem inv_statStep (s : StatSys τ n) (op : StatOp τ n) (s' : StatSys τ n) (h : s.Inv)
    (hs : statStep s op = some s') : s'.Inv := by
  cases op with
  | enqueue q e =>
    obtain ⟨hgd, hs⟩ := ite_none_right_eq_some.mp hs
    exact inv_on h (mirrored_enqueue (h.covers q) e hgd) hs
  | dequeue q e =>
    obtain ⟨hgd, hs⟩ := ite_none_right_eq_some.mp hs
    exact inv_on h (mirrored_dequeue (h.covers q) e hgd) hs
  | updateHistory q env r runtime samples =>
    simp only [statStep] at hs
    exact inv_on h (mirrored_updateHistory (h.covers q) r runtime samples) hs
  | updateTaskPredDemand q env currTime event taskIsRunnable =>
    obtain ⟨-, hs⟩ := ite_none_right_eq_some.mp hs
    exact inv_on h (mirrored_updateTaskPredDemand (h.covers q) event taskIsRunnable) hs
  | updateMisfitStatus q e =>
    obtain ⟨hgd, hs⟩ := ite_none_right_eq_some.mp hs
    exact inv_on h (mirrored_updateMisfitStatus (h.covers q) e hgd.1 hgd.2) hs
  | others q w prio =>
    obtain ⟨hgd, ⟨⟩⟩ := ite_none_right_eq_some.mp hs
    refine ⟨fun r k => (h.sums r k).trans (sum_congr rfl ?_), h.bug⟩
    intro q' _
    dsimp only
    by_cases hq' : q' = q
    · subst hq'
      rw [update_self, share_others hgd]
    · rw [update_of_ne hq']
  | poll currTime period =>
    obtain ⟨-, ⟨⟩⟩ := ite_none_right_eq_some.mp hs
    exact ⟨fun r k => (show _ = (s.rq r).sum k by cases k <;> rfl).trans (h.sums r k), h.bug⟩

def StatRq.init (lastTime : ℕ) : StatRq where
  nrBigTasks := 0
  nrRtgHighPrioTasks := 0
  nrTrailblazerTasks := 0
  nrGiantTasks := 0
  cumulativeRunnableAvgScaled := 0
  predDemandsSumScaled := 0
  bug := false
  nr := 0
  nrMax := 0
  lastTime := lastTime
  nrProdSum := 0
  nrBigProdSum := 0
  nrGiantProdSum := 0

def StatSys.init (clock : ℕ) (task : τ → DemandTask n) : StatSys τ n where
  clock := clock
  rq _ := .init clock
  task := task

omit [DecidableEq τ] in
theorem statInv_init (clock : ℕ) {task : τ → DemandTask n} (h : ∀ q, (task q).queued = false) :
    (StatSys.init clock task).Inv := by
  refine ⟨?_, fun _ => rfl⟩
  intro r k
  have hzero : ∑ q, ((task q).share r k : ℤ) = 0 :=
    sum_eq_zero fun q _ => by rw [share_of_not_queued (h q), cast_zero]
  exact (show _ = (0 : ℤ) by cases k <;> rfl).trans hzero.symm

omit [DecidableEq τ] in
theorem sum_flag_eq_tally (flag : DemandTask n → Bool) (f : τ → DemandTask n) (r : Fin n) :
    ∑ q, ((if (f q).enqueuedOn r then (waltFairTask (f q) && flag (f q)).toNat else 0 : ℕ) : ℤ) =
      tally (fun p => p.enqueuedOn r ∧ waltFairTask p = true ∧ flag p = true) f := by
  rw [tally_eq_sum, cast_sum]
  apply sum_congr rfl
  intro q _
  unfold mark
  by_cases hr : (f q).enqueuedOn r
  · cases hfair : waltFairTask (f q) <;> cases hflag : flag (f q) <;> simp [hr, hfair, hflag]
  · simp [hr]

omit [DecidableEq τ] in
theorem sum_weight_eq_sum_filter (x : DemandTask n → ℕ) (f : τ → DemandTask n) (r : Fin n) :
    ∑ q, ((if (f q).enqueuedOn r then x (f q) else 0 : ℕ) : ℤ) = ∑ q with (f q).enqueuedOn r, (x (f q) : ℤ) := by
  rw [sum_filter]
  exact sum_congr rfl fun q _ => cast_ite ..

/-- Through every run of the hooks and the demand updates, the sums of every runqueue are those over the
tasks enqueued on it, its counts are the numbers of enqueued fair tasks with the flag, and no clamp, `BUG_ON`
or `WALT_BUG` was reached. -/
theorem rq_stats_are_sums (clock : ℕ) (task : τ → DemandTask n) (h : ∀ q, (task q).queued = false)
    (ops : List (StatOp τ n)) {s : StatSys τ n} (hrun : run statStep (.init clock task) ops = some s)
    (r : Fin n) :
    (s.rq r).cumulativeRunnableAvgScaled =
        ∑ q with (s.task q).enqueuedOn r, ((s.task q).demandScaled : ℤ) ∧
      (s.rq r).predDemandsSumScaled = ∑ q with (s.task q).enqueuedOn r, ((s.task q).predDemandScaled : ℤ) ∧
      (s.rq r).nrGiantTasks = tally (fun p => p.enqueuedOn r ∧ waltFairTask p = true ∧ p.giant = true) s.task ∧
      (s.rq r).nrTrailblazerTasks = tally (fun p => p.enqueuedOn r ∧ waltFairTask p = true ∧
        p.trailblazer = true) s.task ∧
      (s.rq r).bug = false := by
  have hinv := run_inv_always inv_statStep (statInv_init clock h) hrun
  exact ⟨(hinv.sums r .demand).trans (sum_weight_eq_sum_filter (fun p => p.demandScaled) s.task r),
    (hinv.sums r .predDemand).trans (sum_weight_eq_sum_filter (fun p => p.predDemandScaled) s.task r),
    (hinv.sums r .giant).trans (sum_flag_eq_tally (fun p => p.giant) s.task r),
    (hinv.sums r .trailblazer).trans (sum_flag_eq_tally (fun p => p.trailblazer) s.task r),
    hinv.bug r⟩

end

def freshTask (cpu : Fin n) (grp : Bool) : DemandTask n where
  toWaltTask := .init false cpu grp
  prio := 120
  prevOnRq := .never
  demandScaled := 153
  predDemandScaled := 0
  trailblazer := false
  giant := false
  misfit := false
  rtgHighPrio := false
  sumHistory _ := 1200000
  sumHistoryUtil _ := 0
  cidx := 0
  busyBuckets _ := 0
  bucketBitmask _ := false
  highUtilHistory := 0

def sampleEnv (rqClock : ℕ) : DemandEnv := ⟨7812, 2, true, false, rqClock, 1024, 1024⟩

def hookAt (currTime nrRunning : ℕ) (fits : Bool) : HookEvent :=
  ⟨⟨currTime, nrRunning⟩, false, false, fits, false, 500⟩

def giantTrace : List (StatOp (Fin 2) 2) :=
  [.updateHistory 0 (sampleEnv 1000) ⟨1000, 0⟩ 4000000 1, .enqueue 0 (hookAt 2000 0 true),
    .enqueue 1 (hookAt 3000 1 true), .updateHistory 0 (sampleEnv 9000000) ⟨9000000, 2⟩ 8000000 1,
    .updateMisfitStatus 0 (hookAt 9000000 2 false), .dequeue 1 (hookAt 9500000 2 true)]

/-- A task's demand changes while it sleeps and while it is enqueued, as a giant and a misfit; another one
comes and goes. -/
theorem rq_stats_are_sums_giantTrace :
    ∃ s : StatSys (Fin 2) 2,
      run statStep (.init 1000 fun q => freshTask 0 (q = 0)) giantTrace = some s ∧
      (s.rq 0).cumulativeRunnableAvgScaled = 1024 ∧
      (s.rq 0).nrGiantTasks = tally (fun p => p.enqueuedOn 0 ∧ waltFairTask p = true ∧ p.giant = true) s.task :=
  ⟨_, (some_get (by decide +kernel)).symm, by decide +kernel,
    (rq_stats_are_sums 1000 _ (fun _ => rfl) giantTrace (some_get _).symm 0).2.2.1⟩

end VendorKernel.Walt
