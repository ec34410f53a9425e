import VendorKernel.Walt.Boost

/-! The core control boosts that the pipeline holds (`pipeline.c`): which clusters `pipeline_set_unisolation`
boosts and releases depends on the single-thread setting. -/
namespace VendorKernel.Walt.Pipeline

open Machine Function Option

inductive Requester
  | manualPipeline
  | autoPipeline
  deriving DecidableEq

structure Layout (n k : ℕ) where
  cpuCluster : Fin n → Fin k
  maxPossibleClusterId : Fin k
  numClusters : ℕ
  cpusForPipeline : Cpumask n
  nonempty : cpusForPipeline.forEachCpu ≠ []

variable {n k count others : ℕ} (d : Layout n k)

def Layout.lastCpu : Fin n := d.cpusForPipeline.forEachCpu.getLast d.nonempty

def Layout.chosen (sysctlSingleThreadPipeline : ℕ) (c : Fin k) : Bool :=
  c < d.numClusters &&
    if sysctlSingleThreadPipeline ≠ 0 then c = d.cpuCluster d.lastCpu
    else d.cpusForPipeline.forEachCpu.any (d.cpuCluster · = c) || c = d.maxPossibleClusterId

structure State (k : ℕ) where
  enablePipelineUnisolation : Requester → Bool
  unisolationState : Bool
  sysctlSingleThreadPipeline : ℕ
  boost : Fin k → ℕ
  /-- The part of it that others have taken. Not in the source. -/
  others : Fin k → ℕ

namespace State

def start (k sysctlSingleThreadPipeline : ℕ) : State k :=
  ⟨fun _ => false, false, sysctlSingleThreadPipeline, fun _ => 0, fun _ => 0⟩

def requested (s : State k) : Bool :=
  s.enablePipelineUnisolation .manualPipeline || s.enablePipelineUnisolation .autoPipeline

def setBoosts (s : State k) (boost : Bool) : Fin k → ℕ := fun c =>
  if d.chosen s.sysctlSingleThreadPipeline c then (setClusterBoost (s.boost c) boost).1 else s.boost c

def pipelineSetUnisolation (s : State k) (set : Bool) (flag : Requester) : State k :=
  let s := { s with enablePipelineUnisolation := update s.enablePipelineUnisolation flag set }
  if s.unisolationState ∧ ¬s.requested then
    { s with unisolationState := false, boost := s.setBoosts d false }
  else if ¬s.unisolationState ∧ s.requested then
    { s with unisolationState := true, boost := s.setBoosts d true }
  else s

/-- `walt_configure_single_thread_pipeline`; `heavy` tells whether `heavy_wts[0]` is set. -/
def waltConfigureSingleThreadPipeline (s : State k) (val : ℕ) (heavy : Bool) : State k :=
  let s := { s.pipelineSetUnisolation d false .autoPipeline with sysctlSingleThreadPipeline := val }
  if val ≠ 0 ∧ heavy ∧ d.cpuCluster d.lastCpu = d.maxPossibleClusterId then
    s.pipelineSetUnisolation d true .autoPipeline
  else s

end State

inductive Op (k : ℕ)
  | setUnisolation (set : Bool) (flag : Requester)
  | configure (val : ℕ) (heavy : Bool)
  | other (c : Fin k) (boost : Bool)

def step (s : State k) : Op k → Option (State k)
  | .setUnisolation set flag => some (s.pipelineSetUnisolation d set flag)
  | .configure val heavy => some (s.waltConfigureSingleThreadPipeline d val heavy)
  | .other c true =>
    if s.others c + 2 < 2 ^ 32 then
      some { s with boost := update s.boost c (setClusterBoost (s.boost c) true).1
                    others := update s.others c (s.others c + 1) }
    else none
  | .other c false =>
    if 0 < s.others c then
      some { s with boost := update s.boost c (setClusterBoost (s.boost c) false).1
                    others := update s.others c (s.others c - 1) }
    else none

/-- The setting changes only without a manual request, or if the clusters stay the same. -/
def Careful (s : State k) : Op k → Prop
  | .configure val _ => s.enablePipelineUnisolation .manualPipeline = true →
    ∀ c, d.chosen val c = d.chosen s.sysctlSingleThreadPipeline c
  | _ => True

structure Held (s : State k) : Prop where
  state : s.unisolationState = s.requested
  boost : ∀ c, s.boost c = s.others c + if s.unisolationState && d.chosen s.sysctlSingleThreadPipeline c then 1 else 0
  room : ∀ c, s.others c + 1 < 2 ^ 32

section
variable {d} {s s' : State k}

theorem setClusterBoost_true (h : count + 1 < 2 ^ 32) : (setClusterBoost count true).1 = count + 1 :=
  Nat.mod_eq_of_lt h

theorem Held.setUnisolation (h : Held d s) (set : Bool) (flag : Requester) :
    Held d (s.pipelineSetUnisolation d set flag) := by
  unfold State.pipelineSetUnisolation
  dsimp only
  split_ifs with hrelease htake
  · refine ⟨(Bool.eq_false_of_not_eq_true hrelease.2).symm, fun c => ?_, h.room⟩
    simp only [State.setBoosts, h.boost c, hrelease.1, Bool.true_and, Bool.false_and, setClusterBoost_false]
    split_ifs <;> simp_all
  · refine ⟨htake.2.symm, fun c => ?_, h.room⟩
    simp only [State.setBoosts, h.boost c, Bool.eq_false_of_not_eq_true htake.1, Bool.true_and,
      Bool.false_and, Bool.false_eq_true, if_false, Nat.add_zero, setClusterBoost_true (h.room c)]
    split_ifs <;> rfl
  · refine ⟨?_, h.boost, h.room⟩
    revert hrelease htake
    cases s.unisolationState <;> simp

theorem requested_false (s : State k) :
    (s.pipelineSetUnisolation d false .autoPipeline).requested = s.enablePipelineUnisolation .manualPipeline := by
  unfold State.pipelineSetUnisolation State.requested
  dsimp only
  split_ifs <;> simp

theorem Held.configure (h : Held d s) (val : ℕ) (heavy : Bool)
    (hok : Careful d s (.configure val heavy)) :
    Held d (s.waltConfigureSingleThreadPipeline d val heavy) := by
  have hfst := h.setUnisolation false .autoPipeline
  have hsingle : (s.pipelineSetUnisolation d false .autoPipeline).sysctlSingleThreadPipeline =
      s.sysctlSingleThreadPipeline := by
    unfold State.pipelineSetUnisolation
    dsimp only
    split_ifs <;> rfl
  -- what is held does not depend on the setting: nothing is held without a manual request
  have hnew : Held d { s.pipelineSetUnisolation d false .autoPipeline with
      sysctlSingleThreadPipeline := val } := by
    refine ⟨hfst.state, fun c => ?_, hfst.room⟩
    have hbo := hfst.boost c
    have hsta := hfst.state.trans (requested_false s)
    cases hmanual : s.enablePipelineUnisolation .manualPipeline with
    | false => simpa [hsta, hmanual] using hbo
    | true =>
      rw [hsingle, ← hok hmanual c] at hbo
      exact hbo
  unfold State.waltConfigureSingleThreadPipeline
  split_ifs
  · exact hnew.setUnisolation true .autoPipeline
  · exact hnew

theorem Held.other (h : Held d s) (c : Fin k) (hroom : others + 1 < 2 ^ 32)
    (hcnt : count + s.others c = s.boost c + others) :
    Held d { s with boost := update s.boost c count
                    others := update s.others c others } := by
  refine ⟨h.state, fun c' => ?_, ?_⟩
  · have hbo := h.boost c'
    by_cases hc : c' = c
    · subst hc
      simp only [update_self]
      omega
    · simpa only [update_of_ne hc] using hbo
  · exact (forall_update_iff _ fun _ count => count + 1 < 2 ^ 32).mpr ⟨hroom, fun c' _ => h.room c'⟩

/-- Boosts and releases name the same clusters. -/
theorem Held.step {op : Op k} (h : Held d s) (hok : Careful d s op) (hs : step d s op = some s') : Held d s' := by
  cases op with
  | setUnisolation set flag =>
    cases hs
    exact h.setUnisolation set flag
  | configure val heavy =>
    cases hs
    exact h.configure val heavy hok
  | other c boost =>
    have hle : s.others c ≤ s.boost c ∧ s.boost c ≤ s.others c + 1 := by
      have := h.boost c
      split_ifs at this <;> omega
    cases boost with
    | true =>
      obtain ⟨hroom, ⟨⟩⟩ := ite_none_right_eq_some.mp hs
      refine h.other c (by omega) ?_
      rw [setClusterBoost_true (by omega)]
      omega
    | false =>
      obtain ⟨hpos, ⟨⟩⟩ := ite_none_right_eq_some.mp hs
      refine h.other c (by have := h.room c; omega) ?_
      rw [setClusterBoost_false]
      omega

end

/-- As long as the setting is not changed under a manual request, unless the clusters stay the same, the
pipeline has at most one boost of a cluster, and none without a request. -/
theorem pipeline_boosts_balanced (sysctlSingleThreadPipeline : ℕ) (ops : List (Op k)) (s : State k)
    (hok : Meets (step d) (Careful d) (.start k sysctlSingleThreadPipeline) ops)
    (hrun : run (step d) (.start k sysctlSingleThreadPipeline) ops = some s) (c : Fin k) :
    s.others c ≤ s.boost c ∧ s.boost c ≤ s.others c + 1 ∧
      ((∀ flag, s.enablePipelineUnisolation flag = false) → s.boost c = s.others c) := by
  have hini : Held d (.start k sysctlSingleThreadPipeline) :=
    ⟨rfl, fun c => rfl, fun c => (by decide : 0 + 1 < 2 ^ 32)⟩
  have h := run_inv (fun _ _ _ h hok hs => Held.step h hok hs) hini hok hrun
  have hbo := h.boost c
  refine ⟨?_, ?_, fun hnone => ?_⟩
  · omega
  · split_ifs at hbo <;> omega
  · have hsta : s.unisolationState = false := by
      rw [h.state, State.requested, hnone, hnone]
      rfl
    simpa [hsta] using hbo

local instance neZeroTwo : NeZero 2 := ⟨by decide⟩

def twoClusters : Layout 3 2 where
  cpuCluster cpu := if cpu = 2 then 1 else 0
  maxPossibleClusterId := 1
  numClusters := 2
  cpusForPipeline cpu := cpu ≠ 0
  nonempty := by decide

def singleOps : List (Op 2) :=
  [.setUnisolation true .autoPipeline, .configure 1 true, .setUnisolation false .autoPipeline]

/-- A single-thread pipeline. -/
theorem pipeline_boosts_balanced_single : ∃ s, run (step twoClusters) (.start 2 0) singleOps = some s ∧
    s.boost 0 = 0 := by
  refine ⟨_, rfl, (pipeline_boosts_balanced twoClusters 0 singleOps _ ?_ rfl 0).2.2 (by rintro (_ | _) <;> rfl)⟩
  exact ⟨trivial, fun h => absurd h (by decide), trivial, trivial⟩

/-- The setting is changed under a manual request: the cluster of CPU 1 stays boosted. -/
theorem pipeline_boosts_left :
    (run (step twoClusters) (.start 2 0)
      [.setUnisolation true .manualPipeline, .configure 1 false, .setUnisolation false .manualPipeline]).map
      (fun s => (s.enablePipelineUnisolation .manualPipeline, s.enablePipelineUnisolation .autoPipeline,
        s.boost 0, s.others 0)) = some (false, false, 1, 0) := by
  decide

end VendorKernel.Walt.Pipeline
