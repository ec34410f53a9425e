import VendorKernel.Walt.Migration
import VendorKernel.Walt.WindowAlignment
import VendorKernel.Lib.Transfer

/-! A task that migrates takes its busy time along: the load of all CPUs stays, and the load of its cluster
follows it. A pending subtraction counts as done. -/
namespace VendorKernel.Walt

open Transfer WaltRq Function WaltTask Option Nat List BusySums

variable {n : ℕ}

def pendingSubs (ls : Fin 2 → LoadSubtractions) (w : ℕ) : ℕ :=
  (if (ls 0).windowStart = w then (ls 0).subs else 0) + if (ls 1).windowStart = w then (ls 1).subs else 0

def WaltRq.currLoad (rq : WaltRq) (ws : ℕ) : ℤ :=
  rq.sums.currRunnableSum - pendingSubs rq.loadSubs ws

def WaltRq.prevLoad (rq : WaltRq) (prevWs : ℕ) : ℤ :=
  rq.sums.prevRunnableSum - pendingSubs rq.loadSubs prevWs

/-- The entries belong to windows that have begun, and to different ones unless both are old. -/
structure SubsOrdered (ls : Fin 2 → LoadSubtractions) (ws prevWs : ℕ) : Prop where
  begun₀ : (ls 0).windowStart = ws ∨ (ls 0).windowStart ≤ prevWs
  begun₁ : (ls 1).windowStart = ws ∨ (ls 1).windowStart ≤ prevWs
  distinct : (ls 0).windowStart = (ls 1).windowStart → (ls 0).windowStart < prevWs

section
variable {ls : Fin 2 → LoadSubtractions} {ws prevWs w : ℕ}

theorem pendingSubs_update_zero (e : LoadSubtractions) (w : ℕ) :
    pendingSubs (update ls 0 e) w =
      (if e.windowStart = w then e.subs else 0) + if (ls 1).windowStart = w then (ls 1).subs else 0 := rfl

theorem pendingSubs_update_one (e : LoadSubtractions) (w : ℕ) :
    pendingSubs (update ls 1 e) w =
      (if (ls 0).windowStart = w then (ls 0).subs else 0) +
        if e.windowStart = w then e.subs else 0 := rfl

/-- Making room for one of the two windows keeps what is pending for both. -/
theorem getSubtractionIndex_spec (h : SubsOrdered ls ws prevWs) (hlt : prevWs < ws) (hw : w = ws ∨ w = prevWs) :
    ((getSubtractionIndex ls w).1 (getSubtractionIndex ls w).2).windowStart = w ∧
      SubsOrdered (getSubtractionIndex ls w).1 ws prevWs ∧
      ∀ v, v = ws ∨ v = prevWs → pendingSubs (getSubtractionIndex ls w).1 v = pendingSubs ls v := by
  obtain ⟨h0, h1, hd⟩ := h
  unfold getSubtractionIndex
  split
  · next hw0 => exact ⟨hw0, ⟨h0, h1, hd⟩, fun _ _ => rfl⟩
  · next hw0 =>
    split
    · next hw1 => exact ⟨hw1, ⟨h0, h1, hd⟩, fun _ _ => rfl⟩
    · next hw1 =>
      have hw' : w = ws ∨ w ≤ prevWs := by omega
      -- the replaced entry is older than both windows, or older than the only one it could be
      split
      · next hold =>
        refine ⟨by simp, ⟨h0, hw', fun heq => absurd heq hw0⟩, fun v hv => ?_⟩
        rw [pendingSubs_update_one]
        simp only [pendingSubs]
        split_ifs <;> omega
      · next hold =>
        refine ⟨by simp, ⟨hw', h1, fun heq => absurd heq.symm hw1⟩, fun v hv => ?_⟩
        rw [pendingSubs_update_zero]
        simp only [pendingSubs]
        split_ifs <;> omega

theorem pendingSubs_updateRqLoadSubtractions (k : Fin 2) (x : ℕ) (newTask : Bool) (v : ℕ) :
    pendingSubs (updateRqLoadSubtractions ls k x newTask) v =
      pendingSubs ls v + if (ls k).windowStart = v then x else 0 := by
  unfold updateRqLoadSubtractions
  obtain rfl | rfl : k = 0 ∨ k = 1 := by omega
  · rw [pendingSubs_update_zero]
    simp only [pendingSubs]
    split_ifs <;> omega
  · rw [pendingSubs_update_one]
    simp only [pendingSubs]
    split_ifs <;> omega

theorem SubsOrdered.updateRqLoadSubtractions (h : SubsOrdered ls ws prevWs) (k : Fin 2) (x : ℕ)
    (newTask : Bool) : SubsOrdered (updateRqLoadSubtractions ls k x newTask) ws prevWs := by
  obtain rfl | rfl : k = 0 ∨ k = 1 := by omega
  all_goals exact { h with }

theorem deferSubtraction_spec (h : SubsOrdered ls ws prevWs) (hlt : prevWs < ws) (hw : w = ws ∨ w = prevWs) (x : ℕ)
    (newTask : Bool) :
    SubsOrdered (deferSubtraction ls w x newTask) ws prevWs ∧
      ∀ v, v = ws ∨ v = prevWs → pendingSubs (deferSubtraction ls w x newTask) v =
        pendingSubs ls v + if w = v then x else 0 := by
  unfold deferSubtraction
  split
  · next hx =>
    subst hx
    exact ⟨h, fun v _ => by simp⟩
  · obtain ⟨hwin, hord, hpend⟩ := getSubtractionIndex_spec h hlt hw
    refine ⟨hord.updateRqLoadSubtractions _ _ _, ?_⟩
    intro v hv
    rw [pendingSubs_updateRqLoadSubtractions, hpend v hv, hwin]

end

/-! ### Calls that charge nothing -/

variable {rq rq' rq'' src : WaltRq}

def WaltRq.SameLoad (rq rq' : WaltRq) : Prop :=
  rq'.sums = rq.sums ∧ rq'.loadSubs = rq.loadSubs ∧ rq'.windowStart = rq.windowStart ∧
    rq'.prevWindowSize = rq.prevWindowSize

theorem WaltRq.SameLoad.trans (h : rq.SameLoad rq') (h' : rq'.SameLoad rq'') : rq.SameLoad rq'' :=
  ⟨h'.1.trans h.1, h'.2.1.trans h.2.1, h'.2.2.1.trans h.2.2.1, h'.2.2.2.trans h.2.2.2⟩

theorem WaltRq.SameLoad.refl (rq : WaltRq) : rq.SameLoad rq := ⟨rfl, rfl, rfl, rfl⟩

theorem WaltRq.SameLoad.update {rq : Fin n → WaltRq} {cpu : Fin n} (h : (rq cpu).SameLoad src) (i : Fin n) :
    (rq i).SameLoad (update rq cpu src i) := by
  by_cases hi : i = cpu
  · subst hi
    rwa [update_self]
  · rw [update_of_ne hi]
    exact .refl _

theorem WaltRq.SameLoad.currLoad_eq (h : rq.SameLoad rq') (ws : ℕ) : rq'.currLoad ws = rq.currLoad ws := by
  rw [currLoad, h.1, h.2.1, currLoad]

theorem WaltRq.SameLoad.prevLoad_eq (h : rq.SameLoad rq') (prevWs : ℕ) :
    rq'.prevLoad prevWs = rq.prevLoad prevWs := by
  rw [prevLoad, h.1, h.2.1, prevLoad]

theorem WaltRq.SameLoad.prevWs_eq (h : rq.SameLoad rq') : rq'.prevWs = rq.prevWs := by
  rw [prevWs, h.2.2.1, h.2.2.2, prevWs]

def InWindow (W ws : ℕ) (e : RavgEvent) : Prop :=
  ws ≤ e.wallclock ∧ e.wallclock < ws + W ∧ e.wallclock < 2 ^ 64

instance (W ws : ℕ) (e : RavgEvent) : Decidable (InWindow W ws e) :=
  inferInstanceAs (Decidable (_ ∧ _ ∧ _))

variable {s s' : RqsTask n} {W ws : ℕ} {e : RavgEvent} {cluster : Fin n → ℕ}

section
variable (hW : 0 < W) (hW32 : W < 2 ^ 32)
include hW hW32

theorem updateWindowStart_inWindow (hin : InWindow W rq.windowStart e)
    (h : updateWindowStart W rq e.wallclock = some rq') : rq' = { rq with latestClock := e.wallclock } := by
  obtain ⟨hlo, hhi, h64⟩ := hin
  have hfit : rq.WindowsFit W e.wallclock := by
    unfold WaltRq.WindowsFit
    omega
  obtain ⟨-, k, hk, -, rfl⟩ := updateWindowStart_cases hW hW32 hlo h64 hfit h
  have hlt : k * W < 1 * W := by omega
  obtain rfl : k = 0 := by
    have := lt_of_mul_lt_mul_right hlt
    omega
  rw [if_pos rfl]

/-- Within the window, a call that charges nothing leaves the loads as they are. -/
theorem ravg_quiet {cpu : Fin n} {p p' : WaltTask n} (hbusy : accountBusyForCpuTime p e = false)
    (hmark : rq.windowStart ≤ p.markStart) (hin : InWindow W rq.windowStart e)
    (h : waltUpdateTaskRavg W rq cpu p e = some (rq', p')) :
    rq.SameLoad rq' ∧ ∃ m w, rq.windowStart ≤ m ∧ p' = { p with markStart := m, windowStart := w } := by
  rcases waltUpdateTaskRavg_cases h with ⟨-, rfl, rfl⟩ | ⟨-, -, rq₁, hrq₁, hcase⟩
  · exact ⟨.refl _, p'.markStart, p'.windowStart, hmark, rfl⟩
  · obtain rfl := updateWindowStart_inWindow hW hW32 hin hrq₁
    obtain ⟨w, hw⟩ := startIn_frame p rq.windowStart
    rcases hcase with ⟨-, rfl, rfl⟩ | ⟨-, rfl, rfl⟩
    · exact ⟨⟨rfl, rfl, rfl, rfl⟩, e.wallclock, w, hin.1, by rw [hw]⟩
    · have hnew : enterWindow { rq with latestClock := e.wallclock, taskExecScale := e.taskExecScale }
          { p with windowStart := w } = { p with windowStart := w } := by
        simp [enterWindow, newWindow, hmark]
      rw [updateCpuBusyTime_uncharged cpu ((accountBusyForCpuTime_startIn p rq.windowStart e).trans hbusy), hw, hnew]
      refine ⟨?_, e.wallclock, w, hin.1, rfl⟩
      split <;> exact ⟨rfl, rfl, rfl, rfl⟩

/-! ### One hop -/

structure SameWindows (p p' : WaltTask n) : Prop where
  idle : p'.idle = p.idle
  grp : p'.grp = p.grp
  currWindow : p'.currWindow = p.currWindow
  prevWindow : p'.prevWindow = p.prevWindow

section
variable {h : Hop n} (hidle : s.p.idle = false) (hmark : (s.rq s.p.cpu).windowStart ≤ s.p.markStart)
  (hin : InWindow W (s.rq s.p.cpu).windowStart h.env)
include hidle hmark hin

theorem startMove_quiet {p₁ : WaltTask n}
    (hravg : waltUpdateTaskRavg W (s.rq s.p.cpu) s.p.cpu (s.p.startMove cluster h.newCpu)
      { h.env with isCurr := false, event := .taskMigrate, irqtime := 0 } = some (src, p₁)) :
    (s.rq s.p.cpu).SameLoad src ∧ ∃ m w, (s.rq s.p.cpu).windowStart ≤ m ∧
      p₁ = { s.p.startMove cluster h.newCpu with markStart := m, windowStart := w } := by
  have hbusy : accountBusyForCpuTime (s.p.startMove cluster h.newCpu)
      { h.env with isCurr := false, event := .taskMigrate, irqtime := 0 } = false :=
    accountBusyForCpuTime_of_not_curr hidle (.inl rfl)
  exact ravg_quiet hW hW32 hbusy hmark hin hravg

theorem setTaskCpu_pending (hpend : s.p.enqueueAfterMigration ≠ 0) (hs : setTaskCpu W cluster s h = some s') :
    (∀ i, (s.rq i).SameLoad (s'.rq i)) ∧ SameWindows s.p s'.p ∧ s'.p.cpu = h.newCpu ∧
      s'.p.enqueueAfterMigration = moveKind cluster s.p.cpu h.newCpu ∧
      (s.rq s.p.cpu).windowStart ≤ s'.p.markStart := by
  obtain ⟨src, p₁, hravg, hcase⟩ := setTaskCpu_cases hs
  obtain ⟨hsame, m, w, hm, rfl⟩ := startMove_quiet hW hW32 hidle hmark hin hravg
  rcases hcase with ⟨-, rfl⟩ | ⟨h0, -⟩
  · exact ⟨fun i => hsame.update i, ⟨rfl, rfl, rfl, rfl⟩, rfl, rfl, hm⟩
  · exact absurd h0 hpend

end

def lastMove (c c' : Fin n) : List (Hop n) → Fin n × Fin n
  | [] => (c, c')
  | h :: hs => lastMove c' h.newCpu hs

/-- A task that came from `c` and is on its way through the window. -/
structure OnItsWay (cluster : Fin n → ℕ) (ws : ℕ) (c : Fin n) (s : RqsTask n) : Prop where
  idle : s.p.idle = false
  mark_ge : ws ≤ s.p.markStart
  window : (s.rq s.p.cpu).windowStart = ws
  kind : s.p.enqueueAfterMigration = moveKind cluster c s.p.cpu

/-- Any number of further hops change no load, and the last one decides the kind of the move. -/
theorem run_onItsWay (hops : List (Hop n)) {c : Fin n} (h : OnItsWay cluster ws c s)
    (hin : ∀ h ∈ hops, (s.rq h.newCpu).windowStart = ws ∧ InWindow W ws h.env)
    (hrun : Machine.run (setTaskCpu W cluster) s hops = some s') :
    (∀ i, (s.rq i).SameLoad (s'.rq i)) ∧ SameWindows s.p s'.p ∧
      OnItsWay cluster ws (lastMove c s.p.cpu hops).1 s' ∧
      s'.p.cpu = (lastMove c s.p.cpu hops).2 := by
  induction hops generalizing c s with
  | nil =>
    cases hrun
    exact ⟨fun i => .refl _, ⟨rfl, rfl, rfl, rfl⟩, h, rfl⟩
  | cons hop rest ih =>
    obtain ⟨s₁, hstep, hrest⟩ := Machine.run_cons hrun
    obtain ⟨hld, hwin, hcpu, hkind, hmark⟩ :=
      setTaskCpu_pending hW hW32 h.idle (h.window.le.trans h.mark_ge)
        (h.window ▸ (hin hop (mem_cons_self ..)).2) (h.kind ▸ moveKind_ne_zero _ _ _) hstep
    have h₁ : OnItsWay cluster ws s.p.cpu s₁ := by
      refine ⟨hwin.idle.trans h.idle, h.window ▸ hmark, ?_, hcpu ▸ hkind⟩
      rw [hcpu, (hld _).2.2.1]
      exact (hin hop (mem_cons_self ..)).1
    have hin₁ : ∀ h ∈ rest, (s₁.rq h.newCpu).windowStart = ws ∧ InWindow W ws h.env := by
      intro h' hmem
      rw [(hld _).2.2.1]
      exact hin h' (mem_cons_of_mem _ hmem)
    obtain ⟨hld', hwin', hway, hcpu'⟩ := ih h₁ hin₁ hrest
    rw [hcpu] at hway hcpu'
    exact ⟨fun i => (hld i).trans (hld' i),
      ⟨hwin'.idle.trans hwin.idle, hwin'.grp.trans hwin.grp,
        hwin'.currWindow.trans hwin.currWindow, hwin'.prevWindow.trans hwin.prevWindow⟩,
      hway, hcpu'⟩

end

/-! ### The first hop and the enqueue -/

variable {ws prevWs : ℕ} {p p₂ : WaltTask n}

/-- The windows of a task before it migrates are the sums of its contributions, confined to its cluster and
counted on its CPU. -/
structure Settled (cluster : Fin n → ℕ) (s : RqsTask n) : Prop where
  idle : s.p.idle = false
  grp : s.p.grp = false
  enqueued : s.p.enqueueAfterMigration = 0
  mark_ge : (s.rq s.p.cpu).windowStart ≤ s.p.markStart
  curr_sum : ∑ i, s.p.currWindowCpu i = s.p.currWindow
  prev_sum : ∑ i, s.p.prevWindowCpu i = s.p.prevWindow
  curr_confined : ∀ i, cluster i ≠ cluster s.p.cpu → s.p.currWindowCpu i = 0
  prev_confined : ∀ i, cluster i ≠ cluster s.p.cpu → s.p.prevWindowCpu i = 0
  curr_le : s.p.currWindowCpu s.p.cpu ≤ (s.rq s.p.cpu).sums.currRunnableSum
  prev_le : s.p.prevWindowCpu s.p.cpu ≤ (s.rq s.p.cpu).sums.prevRunnableSum
  prevWs_lt : (s.rq s.p.cpu).prevWs < (s.rq s.p.cpu).windowStart
  subs : ∀ i, SubsOrdered (s.rq i).loadSubs (s.rq s.p.cpu).windowStart (s.rq s.p.cpu).prevWs

theorem load_defer_both (hlt : prevWs < ws) (h : SubsOrdered rq.loadSubs ws prevWs) (x y : ℕ) (newTask : Bool) :
    let rq' : WaltRq :=
      { rq with loadSubs := deferSubtraction (deferSubtraction rq.loadSubs ws x newTask) prevWs y newTask }
    rq'.currLoad ws = rq.currLoad ws - x ∧ rq'.prevLoad prevWs = rq.prevLoad prevWs - y := by
  obtain ⟨h₁, hx⟩ := deferSubtraction_spec h hlt (.inl rfl) x newTask
  obtain ⟨-, hy⟩ := deferSubtraction_spec h₁ hlt (.inr rfl) y newTask
  simp only [currLoad, prevLoad]
  rw [hy ws (.inl rfl), hx ws (.inl rfl), hy prevWs (.inr rfl), hx prevWs (.inr rfl),
    if_pos rfl, if_pos rfl, if_neg hlt.ne, if_neg hlt.ne']
  omega

/-- Leaving the cluster takes each CPU's part of the load off it, at once or deferred. -/
theorem load_migrateInterClusterSubtraction {rq : Fin n → WaltRq} {c : Fin n} (hws : (rq c).windowStart = ws)
    (hprevWs : (rq c).prevWs = prevWs) (hlt : prevWs < ws) (hsubs : ∀ i, SubsOrdered (rq i).loadSubs ws prevWs)
    (hcurr : ∀ i, cluster i ≠ cluster c → p.currWindowCpu i = 0)
    (hprev : ∀ i, cluster i ≠ cluster c → p.prevWindowCpu i = 0)
    (hcurrLe : p.currWindowCpu c ≤ (rq c).sums.currRunnableSum)
    (hprevLe : p.prevWindowCpu c ≤ (rq c).sums.prevRunnableSum) (newTask : Bool) (i : Fin n) :
    let rq' := (migrateInterClusterSubtraction cluster rq p c newTask).1
    (rq' i).currLoad ws = (rq i).currLoad ws - p.currWindowCpu i ∧
      (rq' i).prevLoad prevWs = (rq i).prevLoad prevWs - p.prevWindowCpu i ∧
      (rq' i).windowStart = (rq i).windowStart := by
  subst hws hprevWs
  simp only [migrateInterClusterSubtraction, updateClusterLoadSubtractions, update_self]
  by_cases hi : i = c
  · subst hi
    simp only [ne_eq, not_true_eq_false, false_and, if_false, update_self]
    refine ⟨?_, ?_, trivial⟩
    · simp only [currLoad, sub, cast_sub hcurrLe]
      ring
    · simp only [prevLoad, sub, cast_sub hprevLe]
      ring
  · by_cases hg : cluster i = cluster c
    · rw [if_pos ⟨hi, hg⟩]
      simp only [ne_eq, hi, not_false_eq_true, update_of_ne]
      obtain ⟨hx, hy⟩ :=
        load_defer_both hlt (hsubs i) (p.currWindowCpu i) (p.prevWindowCpu i) newTask
      exact ⟨hx, hy, trivial⟩
    · simp [hi, hg, hcurr i hg, hprev i hg]

theorem sameLoad_setTop (rq : Fin n → WaltRq) (c : Fin n) (top : TopTasks) (i : Fin n) :
    (rq i).SameLoad (update rq c { rq c with top := top } i) :=
  WaltRq.SameLoad.update (show (rq c).SameLoad { rq c with top := top } from ⟨rfl, rfl, rfl, rfl⟩) i

theorem subtractFromSource_eq {rq rq₂ : Fin n → WaltRq} (hgrp : p.grp = false)
    (hs : subtractFromSource cluster rq p = (rq₂, p₂)) :
    ∃ rq₁, (rq₁, p₂) =
        (if p.enqueueAfterMigration = 2 then
          migrateInterClusterSubtraction cluster rq p p.cpu (isNewTask p)
        else (rq, p)) ∧
      ∀ i, (rq₁ i).SameLoad (rq₂ i) := by
  simp only [subtractFromSource, hgrp, Bool.false_eq_true, if_false] at hs
  cases hs
  exact ⟨_, rfl, sameLoad_setTop _ _ _⟩

/-- The source gives up the load between clusters. -/
theorem setTaskCpu_settled {hop : Hop n} (hW : 0 < W) (hW32 : W < 2 ^ 32)
    (h : Settled cluster s) (hin : InWindow W (s.rq s.p.cpu).windowStart hop.env)
    (hs : setTaskCpu W cluster s hop = some s') :
    (∀ i,
      (s'.rq i).currLoad (s.rq s.p.cpu).windowStart =
        (s.rq i).currLoad (s.rq s.p.cpu).windowStart -
          (if cluster s.p.cpu ≠ cluster hop.newCpu then (s.p.currWindowCpu i : ℤ) else 0) ∧
      (s'.rq i).prevLoad (s.rq s.p.cpu).prevWs =
        (s.rq i).prevLoad (s.rq s.p.cpu).prevWs -
          (if cluster s.p.cpu ≠ cluster hop.newCpu then (s.p.prevWindowCpu i : ℤ) else 0) ∧
      (s'.rq i).windowStart = (s.rq i).windowStart) ∧
    SameWindows s.p s'.p ∧ s'.p.cpu = hop.newCpu ∧
      s'.p.enqueueAfterMigration = moveKind cluster s.p.cpu hop.newCpu ∧
      (s.rq s.p.cpu).windowStart ≤ s'.p.markStart := by
  obtain ⟨src, p₁, hravg, hcase⟩ := setTaskCpu_cases hs
  obtain ⟨hsame, m, w, hm, rfl⟩ := startMove_quiet hW hW32 h.idle h.mark_ge hin hravg
  rcases hcase with ⟨h0, -⟩ | ⟨-, rq₂, p₂, hsub, rfl⟩
  · exact absurd h.enqueued h0
  · have hsrc : ∀ i, (s.rq i).SameLoad (update s.rq s.p.cpu src i) := hsame.update
    obtain ⟨rq₁, hr, hld⟩ := subtractFromSource_eq (by exact h.grp) hsub
    by_cases hcx : cluster s.p.cpu = cluster hop.newCpu
    · rw [if_neg (by simp [startMove, moveKind, hcx])] at hr
      cases hr
      refine ⟨fun i => ?_, ⟨rfl, rfl, rfl, rfl⟩, rfl, rfl, hm⟩
      have hload := (hsrc i).trans (hld i)
      rw [if_neg (not_not.mpr hcx), if_neg (not_not.mpr hcx), sub_zero, sub_zero]
      exact ⟨hload.currLoad_eq _, hload.prevLoad_eq _, hload.2.2.1⟩
    · rw [if_pos (by simp [startMove, moveKind, hcx])] at hr
      cases hr
      refine ⟨fun i => ?_, ⟨rfl, rfl, rfl, rfl⟩, rfl, rfl, hm⟩
      obtain ⟨hcurr, hprev, hws⟩ := load_migrateInterClusterSubtraction (hsrc s.p.cpu).2.2.1
        (hsrc s.p.cpu).prevWs_eq h.prevWs_lt (fun i => (hsrc i).2.1 ▸ h.subs i)
        h.curr_confined h.prev_confined ((hsrc s.p.cpu).1 ▸ h.curr_le)
        ((hsrc s.p.cpu).1 ▸ h.prev_le) (isNewTask s.p) i
      rw [(hsrc i).currLoad_eq] at hcurr
      rw [(hsrc i).prevLoad_eq] at hprev
      rw [if_pos hcx, if_pos hcx]
      exact ⟨((hld i).currLoad_eq _).trans hcurr, ((hld i).prevLoad_eq _).trans hprev,
        (hld i).2.2.1.trans (hws.trans (hsrc i).2.2.1)⟩

theorem load_addToDestination (rq : Fin n → WaltRq) (hgrp : p.grp = false) (c : Fin n) (ws prevWs : ℕ)
    (i : Fin n) : let rq' := (addToDestination rq p c).1
    (rq' i).currLoad ws = (rq i).currLoad ws + (if i = c then
        (if p.enqueueAfterMigration = 2 then (p.currWindow : ℤ) else 0) else 0) ∧
      (rq' i).prevLoad prevWs = (rq i).prevLoad prevWs + (if i = c then
        (if p.enqueueAfterMigration = 2 then (p.prevWindow : ℤ) else 0) else 0) := by
  simp only [addToDestination, hgrp, Bool.false_eq_true, if_false]
  by_cases h2 : p.enqueueAfterMigration = 2
  · simp only [h2, if_true, migrateInterClusterAddition, allOn]
    by_cases hi : i = c
    · subst hi
      simp only [or_true, if_true, update_self, currLoad, prevLoad, add, cast_add]
      constructor <;> ring
    · simp only [hi, or_false, if_false, ne_eq, not_false_eq_true, update_of_ne, add_zero]
      split <;> exact ⟨rfl, rfl⟩
  · simp only [h2, if_false, ite_self, add_zero]
    have hload := sameLoad_setTop rq c ((rq c).top.migrateTopTasksAddition p.currWindow p.prevWindow) i
    exact ⟨hload.currLoad_eq _, hload.prevLoad_eq _⟩

/-- The destination gets the load. -/
theorem enqueueTask_onItsWay {c : Fin n} (hW : 0 < W)
    (hW32 : W < 2 ^ 32) (h : OnItsWay cluster ws c s) (hgrp : s.p.grp = false) (hin : InWindow W ws e)
    (hs : enqueueTask W s e = some s') (prevWs : ℕ) :
    s'.p.cpu = s.p.cpu ∧ ∀ i,
      (s'.rq i).currLoad ws = (s.rq i).currLoad ws + (if i = s.p.cpu then
        (if cluster c ≠ cluster s.p.cpu then (s.p.currWindow : ℤ) else 0) else 0) ∧
      (s'.rq i).prevLoad prevWs = (s.rq i).prevLoad prevWs + (if i = s.p.cpu then
        (if cluster c ≠ cluster s.p.cpu then (s.p.prevWindow : ℤ) else 0) else 0) := by
  rcases enqueueTask_cases hs with ⟨h0, -⟩ | ⟨-, dest, p₁, rq₂, p₂, hravg, hadd, rfl⟩
  · exact absurd h0 (h.kind ▸ moveKind_ne_zero _ _ _)
  · have hbusy : accountBusyForCpuTime s.p
        { e with isCurr := false, event := .taskUpdate, irqtime := 0 } = false :=
      accountBusyForCpuTime_of_not_curr h.idle (.inr ⟨rfl, rfl⟩)
    obtain ⟨hsame, m, w, hm, rfl⟩ :=
      ravg_quiet hW hW32 hbusy (h.window.le.trans h.mark_ge) (h.window ▸ hin) hravg
    have hcpu := cpu_addToDestination (update s.rq s.p.cpu dest)
      { s.p with markStart := m, windowStart := w } s.p.cpu
    rw [hadd] at hcpu
    refine ⟨hcpu, ?_⟩
    intro i
    obtain ⟨hcurr, hprev⟩ := load_addToDestination (update s.rq s.p.cpu dest)
      (show grp { s.p with markStart := m, windowStart := w } = false from hgrp)
      s.p.cpu ws prevWs i
    have hkind : s.p.enqueueAfterMigration = 2 ↔ cluster c ≠ cluster s.p.cpu := by
      rw [h.kind]
      exact moveKind_eq_two
    rw [hadd] at hcurr hprev
    simp only [hkind] at hcurr hprev
    rw [(hsame.update i).currLoad_eq] at hcurr
    rw [(hsame.update i).prevLoad_eq] at hprev
    exact ⟨hcurr, hprev⟩

/-! ### The whole migration -/

/-- The load of all CPUs is the same in both windows and, between clusters, the task's load has moved. -/
def LoadFollows (cluster : Fin n → ℕ) (s s' : RqsTask n) : Prop :=
  let ws := (s.rq s.p.cpu).windowStart
  let prevWs := (s.rq s.p.cpu).prevWs
  Carried cluster (fun i => (s.rq i).currLoad ws) (fun i => (s'.rq i).currLoad ws) s.p.currWindow
      s.p.cpu s'.p.cpu ∧
    Carried cluster (fun i => (s.rq i).prevLoad prevWs) (fun i => (s'.rq i).prevLoad prevWs)
      s.p.prevWindow s.p.cpu s'.p.cpu

instance (cluster : Fin n → ℕ) (s s' : RqsTask n) : Decidable (LoadFollows cluster s s') := by
  unfold LoadFollows Carried
  infer_instance

/-- The task has no load, or the first and last move both leave a cluster, or the path ends in its cluster. -/
def MovesMatch (cluster : Fin n → ℕ) (p : WaltTask n) (first : Hop n) (rest : List (Hop n)) :
    Prop :=
  let last := lastMove p.cpu first.newCpu rest
  p.currWindow = 0 ∧ p.prevWindow = 0 ∨
    cluster p.cpu ≠ cluster first.newCpu ∧ cluster last.1 ≠ cluster last.2 ∨
    cluster p.cpu = cluster first.newCpu ∧ cluster last.1 = cluster last.2 ∧ cluster p.cpu = cluster last.2

/-- The clocks of a migration are in one window, which every CPU on the path has entered. -/
def PathInWindow (W : ℕ) (s : RqsTask n) (hops : List (Hop n)) (e : RavgEvent) : Prop :=
  (∀ h ∈ hops, (s.rq h.newCpu).windowStart = (s.rq s.p.cpu).windowStart ∧
    InWindow W (s.rq s.p.cpu).windowStart h.env) ∧ InWindow W (s.rq s.p.cpu).windowStart e

instance (W : ℕ) (s : RqsTask n) (hops : List (Hop n)) (e : RavgEvent) :
    Decidable (PathInWindow W s hops e) :=
  inferInstanceAs (Decidable (_ ∧ _))

/-- The load moves from the first CPU to the last. -/
theorem migrate_shifted {first : Hop n} {rest : List (Hop n)}
    (hW : 0 < W) (hW32 : W < 2 ^ 32) (h : Settled cluster s) (hin : PathInWindow W s (first :: rest) e)
    (hrun : migrate W cluster s (first :: rest) e = some s') :
    let last := lastMove s.p.cpu first.newCpu rest
    s'.p.cpu = last.2 ∧
      Shifted (fun i => (s.rq i).currLoad (s.rq s.p.cpu).windowStart)
        (fun i => (s'.rq i).currLoad (s.rq s.p.cpu).windowStart) s.p.currWindowCpu s.p.currWindow
        (cluster s.p.cpu ≠ cluster first.newCpu) (cluster last.1 ≠ cluster last.2) last.2 ∧
      Shifted (fun i => (s.rq i).prevLoad (s.rq s.p.cpu).prevWs)
        (fun i => (s'.rq i).prevLoad (s.rq s.p.cpu).prevWs) s.p.prevWindowCpu s.p.prevWindow
        (cluster s.p.cpu ≠ cluster first.newCpu) (cluster last.1 ≠ cluster last.2) last.2 := by
  obtain ⟨s₂, hhops, henq⟩ := bind_eq_some_iff.mp hrun
  obtain ⟨s₁, hfst, hrest⟩ := Machine.run_cons hhops
  obtain ⟨hpath, hend⟩ := hin
  have hin₁ := hpath first (mem_cons_self ..)
  obtain ⟨hld₁, hwin₁, hcpu₁, hkind₁, hmark₁⟩ := setTaskCpu_settled hW hW32 h hin₁.2 hfst
  have hway₁ : OnItsWay cluster (s.rq s.p.cpu).windowStart s.p.cpu s₁ :=
    ⟨hwin₁.idle.trans h.idle, hmark₁, by rw [hcpu₁, (hld₁ _).2.2]; exact hin₁.1,
      hcpu₁ ▸ hkind₁⟩
  have hpath₁ : ∀ hop ∈ rest, (s₁.rq hop.newCpu).windowStart = (s.rq s.p.cpu).windowStart ∧
      InWindow W (s.rq s.p.cpu).windowStart hop.env := by
    intro hop hmem
    rw [(hld₁ _).2.2]
    exact hpath hop (mem_cons_of_mem _ hmem)
  obtain ⟨hld₂, hwin₂, hway₂, hcpu₂⟩ := run_onItsWay hW hW32 rest hway₁ hpath₁ hrest
  have hgrp : s₂.p.grp = false := hwin₂.grp.trans (hwin₁.grp.trans h.grp)
  obtain ⟨hcpu, hadd⟩ :=
    enqueueTask_onItsWay hW hW32 hway₂ hgrp hend henq (s.rq s.p.cpu).prevWs
  rw [hcpu₁] at hway₂ hcpu₂ hadd
  refine ⟨hcpu.trans hcpu₂, ?_, ?_⟩
  · intro i
    dsimp only
    rw [(hadd i).1, (hld₂ i).currLoad_eq, (hld₁ i).1, hcpu₂, hwin₂.currWindow, hwin₁.currWindow]
  · intro i
    dsimp only
    rw [(hadd i).2, (hld₂ i).prevLoad_eq, (hld₁ i).2.1, hcpu₂, hwin₂.prevWindow, hwin₁.prevWindow]

/-- A migration within one window keeps the load, and takes it to the new cluster, exactly when
the moves match. -/
theorem migration_load_iff {W : ℕ} (hW : 0 < W) (hW32 : W < 2 ^ 32) {cluster : Fin n → ℕ} {s s' : RqsTask n}
    (h : Settled cluster s) (first : Hop n) (rest : List (Hop n))
    (e : RavgEvent) (hin : PathInWindow W s (first :: rest) e)
    (hrun : migrate W cluster s (first :: rest) e = some s') :
    LoadFollows cluster s s' ↔ MovesMatch cluster s.p first rest := by
  obtain ⟨hcpu, hcurr, hprev⟩ := migrate_shifted hW hW32 h hin hrun
  unfold LoadFollows MovesMatch
  dsimp only
  rw [hcpu, hcurr.carried_iff h.curr_confined h.curr_sum, hprev.carried_iff h.prev_confined h.prev_sum]
  simp only [not_not]
  exact and_or_right.symm

def spreadTask : RqsTask 4 where
  rq _ := { WaltRq.init 8000000 16001000 with sums := ⟨1000, 1000, 0, 0⟩ }
  p :=
    { idle := false
      cpu := 0
      markStart := 16002000
      windowStart := 16001000
      currWindow := 500
      prevWindow := 70
      currWindowCpu := fun i => if i = 0 then 300 else if i = 1 then 200 else 0
      prevWindowCpu := fun i => if i = 1 then 70 else 0
      activeTime := newTaskActiveTime
      grp := false
      loadBoost := 0
      boostedTaskLoad := 0
      enqueueAfterMigration := 0
      prevCpu := 0
      newCpu := none }

theorem settled_spreadTask : Settled twoByTwo spreadTask := by
  refine ⟨rfl, rfl, rfl, ?_, ?_, ?_, ?_, ?_, ?_, ?_, ?_, fun _ => ⟨.inr (zero_le _), .inr (zero_le _), ?_⟩⟩
  all_goals decide +revert

/-- To the other cluster, back, and to the other cluster again. -/
theorem migration_load_back_and_forth :
    ∃ s', migrate 8000000 twoByTwo spreadTask
        [⟨2, wakingAt 16003000⟩, ⟨1, wakingAt 16004000⟩, ⟨3, wakingAt 16005000⟩]
        (wakingAt 16006000) = some s' ∧
      s'.p.cpu = 3 ∧ LoadFollows twoByTwo spreadTask s' :=
  ⟨_, (some_get (by decide +kernel)).symm, by decide +kernel,
    (migration_load_iff (by decide) (by decide) settled_spreadTask ⟨2, wakingAt 16003000⟩
      [⟨1, wakingAt 16004000⟩, ⟨3, wakingAt 16005000⟩] (wakingAt 16006000) (by decide +kernel)
      (some_get _).symm).mpr (.inr (.inl (by decide)))⟩

/-- A second move within the new cluster loses the task's load; a second move out of the old
cluster counts it twice. -/
theorem migration_load_lost_or_doubled :
    Settled twoByTwo spreadTask ∧
      (∃ s', migrate 8000000 twoByTwo spreadTask
          [⟨2, wakingAt 16003000⟩, ⟨3, wakingAt 16004000⟩] (wakingAt 16005000) = some s' ∧
        ∑ i, (s'.rq i).currLoad 16001000 = ∑ i, (spreadTask.rq i).currLoad 16001000 - 500) ∧
      ∃ s', migrate 8000000 twoByTwo spreadTask
          [⟨1, wakingAt 16003000⟩, ⟨2, wakingAt 16004000⟩] (wakingAt 16005000) = some s' ∧
        ∑ i, (s'.rq i).currLoad 16001000 = ∑ i, (spreadTask.rq i).currLoad 16001000 + 500 :=
  ⟨settled_spreadTask, ⟨_, (some_get (by decide +kernel)).symm, by decide +kernel⟩,
    _, (some_get (by decide +kernel)).symm, by decide +kernel⟩

end VendorKernel.Walt
