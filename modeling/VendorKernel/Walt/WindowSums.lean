import VendorKernel.Walt.Migration
import VendorKernel.Lib.Tally

/-! A task's windows are the sums of its contributions to the CPUs. Accounting, rollover,
migration and group transfer write the totals and the arrays separately. -/
namespace VendorKernel.Walt

open Machine Function Option Nat

variable {n : ℕ}

/-- A property of a window and its array, for both windows of a task. -/
def WaltTask.Both (p : WaltTask n) (Q : ℕ → (Fin n → ℕ) → Prop) : Prop :=
  Q p.currWindow p.currWindowCpu ∧ Q p.prevWindow p.prevWindowCpu

structure Accumulates (cpu : Fin n) (Q : ℕ → (Fin n → ℕ) → Prop) : Prop where
  zero : Q 0 fun _ => 0
  add : ∀ w a d, Q w a → Q (toU32 (w + d)) (update a cpu (toU32 (a cpu + d)))

section
variable {Q : ℕ → (Fin n → ℕ) → Prop} {rq rq' : WaltRq} {cpu : Fin n} {p p' : WaltTask n} {e : RavgEvent}

theorem both_rolloverTaskWindow (hzero : Q 0 fun _ => 0) (h : p.Both Q) (size : ℕ) (full : Bool) :
    (rolloverTaskWindow p size full).Both Q := by
  cases full with
  | false => exact ⟨hzero, h.1⟩
  | true => exact ⟨hzero, hzero⟩

theorem both_enterWindow (hzero : Q 0 fun _ => 0) (h : p.Both Q) : (enterWindow rq p).Both Q := by
  unfold enterWindow
  split
  · split
    · exact h
    · exact both_rolloverTaskWindow hzero h rq.prevWindowSize _
  · exact h

/-- After a rollover the windows hold nothing, so a set is an addition. -/
theorem both_chargeSplit (hQ : Accumulates cpu Q) (h : p.Both Q) (newTask full : Bool) (t : ℕ)
    (hcurr : p.currWindowCpu = fun _ => 0) (hprev : full = true → p.prevWindowCpu = fun _ => 0) :
    (chargeSplit rq cpu p newTask t full true).2.Both Q := by
  have hset (a : Fin n → ℕ) (ha : a = fun _ => 0) (d : ℕ) : Q (toU32 d) (update a cpu (toU32 d)) := by
    rw [ha]
    simpa using hQ.add 0 (fun _ => 0) d hQ.zero
  cases full with
  | false => exact ⟨hset _ hcurr _, hQ.add _ _ _ h.2⟩
  | true => exact ⟨hset _ hcurr _, hset _ (hprev rfl) _⟩

theorem enterWindow_empty (hidle : p.idle = false) (hnew : newWindow rq p = true) :
    ((enterWindow rq p).currWindowCpu = fun _ => 0) ∧
      (fullWindow rq p = true → (enterWindow rq p).prevWindowCpu = fun _ => 0) := by
  unfold enterWindow
  rw [if_pos hnew]
  simp only [hidle, Bool.false_eq_true, if_false]
  refine ⟨rfl, fun hfull => ?_⟩
  rw [hfull]
  rfl

theorem both_updateCpuBusyTime (hQ : Accumulates cpu Q) (h : p.Both Q)
    (hidle : p.idle = true → e.isCurr = true) : (updateCpuBusyTime rq cpu p e).2.Both Q := by
  have hen : (enterWindow rq p).Both Q := both_enterWindow hQ.zero h
  have hidle' : (enterWindow rq p).idle = p.idle := by
    obtain ⟨_, _, _, _, _, _, hp⟩ := enterWindow_frame rq p
    rw [hp]
  have hchr : (chargeBusyTime rq cpu (enterWindow rq p) e (newWindow rq p) (fullWindow rq p)).2.Both Q := by
    unfold chargeBusyTime
    split
    · exact hen
    · split
      · dsimp only
        split
        · exact hen
        · exact ⟨hQ.add _ _ _ hen.1, hen.2⟩
      · next hnew =>
        have hnew' : newWindow rq p = true := by simpa using hnew
        cases hp : p.idle with
        | true =>
          simp only [hidle hp, hidle', hp, Bool.true_eq_false, if_false, Bool.not_true, false_or]
          split
          · simpa [chargeSplit] using hen
          · exact hen
        | false =>
          obtain ⟨hcurr, hprev⟩ := enterWindow_empty hp hnew'
          simp only [hidle', hp, Bool.not_false, or_true, true_or, if_true]
          split <;> exact both_chargeSplit hQ hen _ _ _ hcurr hprev
  unfold updateCpuBusyTime
  dsimp only
  split <;> exact hchr

theorem both_startIn (h : p.Both Q) (ws : ℕ) : (p.startIn ws).Both Q := by
  unfold WaltTask.startIn
  split <;> exact h

section
variable {W : ℕ} (h : p.Both Q) (hs : waltUpdateTaskRavg W rq cpu p e = some (rq', p'))
include h hs

theorem both_ravg_of (hup : ∀ rq ws, (updateCpuBusyTime rq cpu (p.startIn ws) e).2.Both Q) : p'.Both Q := by
  rcases waltUpdateTaskRavg_cases hs with ⟨-, -, rfl⟩ | ⟨-, -, rq₁, -, ⟨-, -, rfl⟩ | ⟨-, -, rfl⟩⟩
  · exact h
  · exact both_startIn h _
  · exact hup _ _

theorem both_ravg (hQ : Accumulates cpu Q) (hidle : p.idle = true → e.isCurr = true) : p'.Both Q :=
  both_ravg_of h hs fun _ _ =>
    both_updateCpuBusyTime hQ (both_startIn h _) ((startIn_unchanged p _).2.1 ▸ hidle)

theorem both_ravg_uncharged (hzero : Q 0 fun _ => 0) (hbusy : accountBusyForCpuTime p e = false) : p'.Both Q := by
  refine both_ravg_of h hs fun rq ws => ?_
  rw [updateCpuBusyTime_uncharged cpu ((accountBusyForCpuTime_startIn p _ e).trans hbusy)]
  exact both_enterWindow hzero (both_startIn h _)

end

end

/-! ### What holds of the windows -/

variable {w : ℕ} {a cluster : Fin n → ℕ}

def SumsTo (w : ℕ) (a : Fin n → ℕ) : Prop := w = (∑ i, a i) % 2 ^ 32

def InCluster (cluster : Fin n → ℕ) (c : Fin n) (w : ℕ) (a : Fin n → ℕ) : Prop :=
  SumsTo w a ∧ ∀ i, cluster i ≠ cluster c → a i = 0

def TakenOut (w : ℕ) (a : Fin n → ℕ) : Prop := w < 2 ^ 32 ∧ ∀ i, a i = 0

theorem accumulates_sumsTo (cpu : Fin n) : Accumulates cpu (SumsTo (n := n)) where
  zero := by simp [SumsTo]
  add w a d h := by
    have hsum := Tally.sum_update id a cpu (toU32 (a cpu + d))
    simp only [id, toU32] at hsum
    simp only [SumsTo, toU32] at h ⊢
    omega

theorem accumulates_inCluster (cluster : Fin n → ℕ) (cpu : Fin n) : Accumulates cpu (InCluster cluster cpu) where
  zero := ⟨(accumulates_sumsTo cpu).zero, fun _ _ => rfl⟩
  add w a d h := by
    refine ⟨(accumulates_sumsTo cpu).add w a d h.1, ?_⟩
    intro i hi
    have hne : i ≠ cpu := fun heq => hi (congrArg cluster heq)
    rw [update_of_ne hne]
    exact h.2 i hi

theorem takenOut_zero : TakenOut (n := n) 0 fun _ => 0 := ⟨by decide, fun _ => rfl⟩

theorem inCluster_update {c : Fin n} (hw : w < 2 ^ 32) (ha : ∀ i, i ≠ c → a i = 0) (cluster : Fin n → ℕ) :
    InCluster cluster c w (update a c w) := by
  have hoth : ∀ i, i ≠ c → update a c w i = 0 := by
    intro i hi
    rw [update_of_ne hi]
    exact ha i hi
  refine ⟨?_, fun i hi => hoth i fun heq => hi (congrArg cluster heq)⟩
  rw [SumsTo, Finset.sum_eq_single c (fun i _ hi => hoth i hi) (by simp),
    update_self, mod_eq_of_lt hw]

theorem InCluster.congr {c c' : Fin n} (h : InCluster cluster c w a) (hc : cluster c = cluster c') :
    InCluster cluster c' w a :=
  ⟨h.1, fun i hi => h.2 i (hc ▸ hi)⟩

theorem SumsTo.lt (h : SumsTo w a) : w < 2 ^ 32 :=
  h ▸ mod_lt _ (by decide)

/-- The task is confined to its cluster, taken out of it for a move, or free to be anywhere in a group. -/
structure WindowInv (cluster : Fin n → ℕ) (p : WaltTask n) : Prop where
  grouped : p.grp = true → p.Both SumsTo
  confined : p.grp = false → p.enqueueAfterMigration ≠ 2 → p.Both (InCluster cluster p.cpu)
  takenOut : p.grp = false → p.enqueueAfterMigration = 2 → p.Both TakenOut

/-! ### Steps -/

theorem WaltTask.Both.imp {p : WaltTask n} {Q Q' : ℕ → (Fin n → ℕ) → Prop} (h : p.Both Q)
    (himp : ∀ w a, Q w a → Q' w a) : p.Both Q' :=
  ⟨himp _ _ h.1, himp _ _ h.2⟩

section
variable {W : ℕ} {cluster : Fin n → ℕ} {s s' : RqsTask n}

theorem windowInv_ravg {rq rq' : WaltRq} {p p' : WaltTask n} {e : RavgEvent}
    (h : WindowInv cluster p) (hidle : p.idle = true → e.isCurr = true)
    (hpend : p.enqueueAfterMigration ≠ 0 → accountBusyForCpuTime p e = false)
    (hs : waltUpdateTaskRavg W rq p.cpu p e = some (rq', p')) : WindowInv cluster p' := by
  obtain ⟨-, hcpu, hgrp, hkind⟩ := ravg_task_frame hs
  constructor
  · intro hg
    exact both_ravg (h.grouped (hgrp ▸ hg)) hs (accumulates_sumsTo _) hidle
  · intro hg h2
    rw [hcpu]
    exact both_ravg (h.confined (hgrp ▸ hg) (hkind ▸ h2)) hs (accumulates_inCluster cluster _) hidle
  · intro hg h2
    rw [hkind] at h2
    exact both_ravg_uncharged (h.takenOut (hgrp ▸ hg) h2) hs takenOut_zero (hpend (by omega))

theorem both_takenOut_of_settle {p : WaltTask n} (h : p.Both (InCluster cluster p.cpu))
    (rq : Fin n → WaltRq) (hgrp : p.grp = false) (h2 : p.enqueueAfterMigration = 2) :
    (subtractFromSource cluster rq p).2.Both TakenOut := by
  have hclr : ∀ w a, InCluster cluster p.cpu w a →
      TakenOut w fun i => if cluster i = cluster p.cpu then 0 else a i := by
    intro w a ha
    refine ⟨ha.1.lt, ?_⟩
    intro i
    dsimp only
    split
    · rfl
    · next hi => exact ha.2 i hi
  rw [subtractFromSource_task, if_pos ⟨hgrp, h2⟩]
  exact ⟨hclr _ _ h.1, hclr _ _ h.2⟩

/-- The step condition of a move: a task outside the group that is already on its way makes
another move of the same kind. -/
def Hop.SameKind (cluster : Fin n → ℕ) (p : WaltTask n) (h : Hop n) : Prop :=
  p.grp = true ∨ p.enqueueAfterMigration = 0 ∨ p.enqueueAfterMigration = moveKind cluster p.cpu h.newCpu

section
variable (h : WindowInv cluster s.p)
include h

/-- A move to another cluster takes the task out of its own. -/
theorem windowInv_setTaskCpu {hop : Hop n} (hidle : s.p.idle = false) (hkind : hop.SameKind cluster s.p)
    (hs : setTaskCpu W cluster s hop = some s') : WindowInv cluster s'.p := by
  obtain ⟨src, p₁, hravg, hcase⟩ := setTaskCpu_cases hs
  obtain ⟨-, hcpu₁, hgrp₁, hkind₁⟩ := ravg_task_frame hravg
  have hbusy : accountBusyForCpuTime (s.p.startMove cluster hop.newCpu)
      { hop.env with isCurr := false, event := .taskMigrate, irqtime := 0 } = false :=
    accountBusyForCpuTime_of_not_curr hidle (.inl rfl)
  have hkeep (Q : ℕ → (Fin n → ℕ) → Prop) (hzero : Q 0 fun _ => 0) (hQ : s.p.Both Q) : p₁.Both Q :=
    both_ravg_uncharged (show (s.p.startMove cluster hop.newCpu).Both Q from hQ) hravg hzero hbusy
  have hgrouped : p₁.grp = true → p₁.Both SumsTo := fun hg =>
    hkeep _ (accumulates_sumsTo s.p.cpu).zero (h.grouped (hgrp₁ ▸ hg))
  have hsource : p₁.grp = false → s.p.enqueueAfterMigration ≠ 2 → p₁.Both (InCluster cluster s.p.cpu) := fun hg h2 =>
    hkeep _ (accumulates_inCluster cluster s.p.cpu).zero (h.confined (hgrp₁ ▸ hg) h2)
  -- within the cluster the contributions are as confined as before
  have hconfined : p₁.grp = false → s.p.enqueueAfterMigration ≠ 2 →
      p₁.enqueueAfterMigration ≠ 2 → p₁.Both (InCluster cluster hop.newCpu) := by
    intro hg h2 hstay
    have hcluster : cluster s.p.cpu = cluster hop.newCpu := by
      by_contra hne
      exact hstay (hkind₁.trans (moveKind_eq_two.mpr hne))
    exact (hsource hg h2).imp fun w a ha => ha.congr hcluster
  rcases hcase with ⟨hpend, rfl⟩ | ⟨h0, rq₂, p₂, hsub, rfl⟩
  · -- already on its way: the kind is the one it had
    have hsame : p₁.grp = false → s.p.enqueueAfterMigration = p₁.enqueueAfterMigration := by
      intro hg
      have hg₀ : s.p.grp = false := hgrp₁ ▸ hg
      exact ((hkind.resolve_left (by simp [hg₀])).resolve_left hpend).trans hkind₁.symm
    exact ⟨hgrouped, fun hg h2 => hconfined hg (hsame hg ▸ h2) h2,
      fun hg h2 => hkeep _ takenOut_zero (h.takenOut (hgrp₁ ▸ hg) ((hsame hg).trans h2))⟩
  · have hp₂ := subtractFromSource_task cluster (update s.rq p₁.cpu src) p₁
    rw [hsub] at hp₂
    by_cases hout : p₁.grp = false ∧ p₁.enqueueAfterMigration = 2
    · have htk := both_takenOut_of_settle (hcpu₁ ▸ hsource hout.1 (by omega))
        (update s.rq p₁.cpu src) hout.1 hout.2
      rw [hsub] at htk
      dsimp only at hp₂
      rw [if_pos hout] at hp₂
      have hgrp₂ : p₂.grp = false := hp₂ ▸ hout.1
      have hkind₂ : p₂.enqueueAfterMigration = 2 := hp₂ ▸ hout.2
      exact ⟨fun hg => by simp [hgrp₂] at hg, fun _ h2 => absurd hkind₂ h2, fun _ _ => htk⟩
    · rw [if_neg hout] at hp₂
      obtain rfl : p₂ = p₁ := hp₂
      exact ⟨hgrouped, fun hg h2 => hconfined hg (by omega) h2, fun hg h2 => absurd ⟨hg, h2⟩ hout⟩

theorem windowInv_enqueueTask {e : RavgEvent} (hidle : s.p.enqueueAfterMigration ≠ 0 → s.p.idle = false)
    (hs : enqueueTask W s e = some s') :
    WindowInv cluster s'.p ∧ s'.p.enqueueAfterMigration = 0 ∧ s'.p.cpu = s.p.cpu ∧ s'.p.grp = s.p.grp := by
  rcases enqueueTask_cases hs with ⟨h0, rfl⟩ | ⟨hpend, dest, p₁, rq₂, p₂, hravg, hadd, rfl⟩
  · exact ⟨h, h0, rfl, rfl⟩
  · have hbusy : accountBusyForCpuTime s.p
        { e with isCurr := false, event := .taskUpdate, irqtime := 0 } = false :=
      accountBusyForCpuTime_of_not_curr (hidle hpend) (.inr ⟨rfl, rfl⟩)
    have h₁ := windowInv_ravg h (fun hi => by simp [hidle hpend] at hi) (fun _ => hbusy) hravg
    obtain ⟨-, hcpu₁, hgrp₁, hkind₁⟩ := ravg_task_frame hravg
    have hp₂ := addToDestination_task (update s.rq s.p.cpu dest) p₁ s.p.cpu
    rw [hadd] at hp₂
    subst hp₂
    by_cases hin : p₁.grp = false ∧ p₁.enqueueAfterMigration = 2
    · rw [if_pos hin]
      have hboth := h₁.takenOut hin.1 hin.2
      refine ⟨⟨fun hg => (nomatch hin.1.symm.trans hg), fun _ _ => ?_, nofun⟩, rfl, hcpu₁, hgrp₁⟩
      change WaltTask.Both (p₁.allOn s.p.cpu) (InCluster cluster p₁.cpu)
      rw [hcpu₁]
      exact ⟨inCluster_update hboth.1.1 (fun i _ => hboth.1.2 i) cluster,
        inCluster_update hboth.2.1 (fun i _ => hboth.2.2 i) cluster⟩
    · rw [if_neg hin]
      exact ⟨⟨h₁.grouped, fun hg _ => h₁.confined hg fun h2 => hin ⟨hg, h2⟩, nofun⟩, rfl, hcpu₁, hgrp₁⟩

theorem windowInv_transferBusyTime {addTask : Bool} {e e' : RavgEvent} (hidle : s.p.idle = false)
    (hgrp : s.p.grp = !addTask) (hpend : s.p.enqueueAfterMigration ≠ 0 → e.isCurr = false)
    (hs : transferBusyTime W cluster s addTask e e' = some s') : WindowInv cluster s'.p := by
  obtain ⟨⟨wrq, p₁⟩, hravg, hs⟩ := bind_eq_some_iff.mp hs
  obtain ⟨⟨rq₂, p₂⟩, henq, hs⟩ := map_eq_some_iff.mp hs
  have hbusy : s.p.enqueueAfterMigration ≠ 0 → accountBusyForCpuTime s.p
      { e with event := .taskUpdate, irqtime := 0 } = false := fun h0 =>
    accountBusyForCpuTime_of_not_curr hidle (.inr ⟨rfl, hpend h0⟩)
  have h₁ := windowInv_ravg h (fun hi => by simp [hidle] at hi) hbusy hravg
  obtain ⟨hidle₁, hcpu₁, hgrp₁, -⟩ := ravg_task_frame hravg
  obtain ⟨h₂, h0, hcpu₂, hgrp₂⟩ := windowInv_enqueueTask h₁ (fun _ => hidle₁.trans hidle) henq
  rw [hcpu₁] at hcpu₂
  rw [hgrp₁, hgrp] at hgrp₂
  cases addTask with
  | true =>
    -- the siblings are cleared, the rest of the system never had anything
    have hboth := h₂.confined (by simpa using hgrp₂) (by omega)
    rw [hcpu₂] at hboth
    have hoth : ∀ w a, InCluster cluster s.p.cpu w a → ∀ i, i ≠ s.p.cpu →
        (if i ≠ s.p.cpu ∧ cluster i = cluster s.p.cpu then 0 else a i) = 0 := by
      intro w a ha i hi
      split
      · rfl
      · next hout => exact ha.2 i fun hg => hout ⟨hi, hg⟩
    subst hs
    refine ⟨?_, fun hg => absurd hg (by simp), fun hg => absurd hg (by simp)⟩
    intro _
    exact ⟨(inCluster_update hboth.1.1.lt (hoth _ _ hboth.1) cluster).1,
      (inCluster_update hboth.2.1.lt (hoth _ _ hboth.2) cluster).1⟩
  | false =>
    have hboth := h₂.grouped (by simpa using hgrp₂)
    simp only [Bool.false_eq_true, if_false] at hs
    subst hs
    refine ⟨fun hg => absurd hg (by simp), ?_, ?_⟩
    · intro _ _
      rw [hcpu₂]
      exact ⟨inCluster_update hboth.1.lt (fun _ _ => rfl) cluster,
        inCluster_update hboth.2.lt (fun _ _ => rfl) cluster⟩
    · intro _ h2
      exact absurd (h0.symm.trans h2) (by decide)

end

end

/-! ### Runs -/

structure TaskSys (n : ℕ) extends RqsTask n where
  schedRavgWindow : ℕ

inductive TaskOp (n : ℕ)
  | others (schedRavgWindow : ℕ) (rq : Fin n → WaltRq)
  | update (e : RavgEvent)
  | rollover (fullWindow : Bool)
  | setTaskCpu (h : Hop n)
  | enqueue (e : RavgEvent)
  | transfer (addTask : Bool) (e e' : RavgEvent)
  /-- the task moves while it is of the ext class -/
  | scxSetTaskCpu (newCpu : Fin n)
  /-- the task enters or leaves the group while it is of the ext class -/
  | scxRegroup (addTask : Bool)

/-- A task on its way is not running; the idle task is accounted only while it runs and never migrates. Where
`task_on_scx` holds every hook returns at once: a move changes only the CPU, a change of group only the group. -/
def taskStep (cluster : Fin n → ℕ) (s : TaskSys n) : TaskOp n → Option (TaskSys n)
  | .others schedRavgWindow rq => some { s with schedRavgWindow := schedRavgWindow, rq := rq }
  | .update e =>
    if (s.p.enqueueAfterMigration ≠ 0 → accountBusyForCpuTime s.p e = false) ∧
        (s.p.idle = true → e.isCurr = true) then
      (waltUpdateTaskRavg s.schedRavgWindow (s.rq s.p.cpu) s.p.cpu s.p e).map fun (rq, p) =>
        { s with rq := update s.rq s.p.cpu rq, p := p }
    else none
  | .rollover fullWindow =>
    some
      { s with p := rolloverTaskWindow s.p (s.rq s.p.cpu).prevWindowSize fullWindow }
  | .setTaskCpu h =>
    if s.p.idle = false then
      (setTaskCpu s.schedRavgWindow cluster s.toRqsTask h).map fun t => { s with toRqsTask := t }
    else none
  | .enqueue e =>
    if s.p.idle = false then
      (enqueueTask s.schedRavgWindow s.toRqsTask e).map fun t => { s with toRqsTask := t }
    else none
  | .transfer addTask e e' =>
    if s.p.idle = false ∧ s.p.grp = !addTask ∧
        (s.p.enqueueAfterMigration ≠ 0 → e.isCurr = false) then
      (transferBusyTime s.schedRavgWindow cluster s.toRqsTask addTask e e').map fun t =>
        { s with toRqsTask := t }
    else none
  | .scxSetTaskCpu newCpu => if s.p.idle = false then some { s with p := { s.p with cpu := newCpu } } else none
  | .scxRegroup addTask =>
    if s.p.idle = false ∧ s.p.grp = !addTask then some { s with p := { s.p with grp := addTask } } else none

/-- A task of the ext class outside the group stays in its cluster unless its contributions were taken out, and enters
the group only when they were not. -/
def TaskOp.KeepsSums (cluster : Fin n → ℕ) (s : TaskSys n) : TaskOp n → Prop
  | .setTaskCpu h => h.SameKind cluster s.p
  | .scxSetTaskCpu newCpu =>
    s.p.grp = true ∨ s.p.enqueueAfterMigration = 2 ∨ cluster s.p.cpu = cluster newCpu
  | .scxRegroup addTask => addTask = true ∧ s.p.enqueueAfterMigration ≠ 2
  | _ => True

/-- Steps of the same kind keep the sums. -/
theorem windowInv_step (cluster : Fin n → ℕ) (s : TaskSys n) (op : TaskOp n) (s' : TaskSys n)
    (h : WindowInv cluster s.p) (hok : op.KeepsSums cluster s)
    (hs : taskStep cluster s op = some s') : WindowInv cluster s'.p := by
  cases op with
  | others schedRavgWindow rq =>
    cases hs
    exact h
  | update e =>
    obtain ⟨hen, hs⟩ := ite_none_right_eq_some.mp hs
    obtain ⟨⟨rq, p⟩, hravg, rfl⟩ := map_eq_some_iff.mp hs
    exact windowInv_ravg h hen.2 hen.1 hravg
  | rollover fullWindow =>
    cases hs
    have hzero := (accumulates_inCluster cluster s.p.cpu).zero
    exact ⟨fun hg => both_rolloverTaskWindow hzero.1 (h.grouped hg) _ _,
      fun hg h2 => both_rolloverTaskWindow hzero (h.confined hg h2) _ _,
      fun hg h2 => both_rolloverTaskWindow takenOut_zero (h.takenOut hg h2) _ _⟩
  | setTaskCpu hop =>
    obtain ⟨hidle, hs⟩ := ite_none_right_eq_some.mp hs
    obtain ⟨t, ht, rfl⟩ := map_eq_some_iff.mp hs
    exact windowInv_setTaskCpu h hidle hok ht
  | enqueue e =>
    obtain ⟨hidle, hs⟩ := ite_none_right_eq_some.mp hs
    obtain ⟨t, ht, rfl⟩ := map_eq_some_iff.mp hs
    exact (windowInv_enqueueTask h (fun _ => hidle) ht).1
  | transfer addTask e e' =>
    obtain ⟨hen, hs⟩ := ite_none_right_eq_some.mp hs
    obtain ⟨t, ht, rfl⟩ := map_eq_some_iff.mp hs
    exact windowInv_transferBusyTime h hen.1 hen.2.1 hen.2.2 ht
  | scxSetTaskCpu newCpu =>
    obtain ⟨-, ⟨⟩⟩ := ite_none_right_eq_some.mp hs
    refine ⟨h.grouped, fun hg h2 => ?_, h.takenOut⟩
    have hcluster := (hok.resolve_left (by simpa using hg)).resolve_left h2
    exact (h.confined hg h2).imp fun w a ha => ha.congr hcluster
  | scxRegroup addTask =>
    obtain ⟨⟨-, hgrp⟩, ⟨⟩⟩ := ite_none_right_eq_some.mp hs
    obtain ⟨rfl, h2⟩ := hok
    refine ⟨fun _ => (h.confined hgrp h2).imp fun w a ha => ha.1, ?_, ?_⟩
    · exact fun hg => absurd hg (by simp)
    · exact fun hg => absurd hg (by simp)

instance (cluster : Fin n → ℕ) (s : TaskSys n) (op : TaskOp n) : Decidable (op.KeepsSums cluster s) := by
  cases op <;> unfold TaskOp.KeepsSums Hop.SameKind <;> infer_instance

def TaskSys.init (schedRavgWindow : ℕ) (rq : Fin n → WaltRq) (idle : Bool) (cpu : Fin n) : TaskSys n where
  schedRavgWindow := schedRavgWindow
  rq := rq
  p := .init idle cpu false

theorem windowInv_init (cluster : Fin n → ℕ) (idle : Bool) (cpu : Fin n) :
    WindowInv cluster (.init idle cpu false) := by
  have hzero := (accumulates_inCluster cluster cpu).zero
  exact ⟨fun _ => ⟨hzero.1, hzero.1⟩, fun _ _ => ⟨hzero, hzero⟩,
    fun _ _ => ⟨takenOut_zero, takenOut_zero⟩⟩

/-- In every run in which no move changes the kind of a pending migration, and no move or change of group of the
ext class leaves contributions behind, a task with no migration pending has windows that are the sums of its
contributions. -/
theorem windows_are_sums (cluster : Fin n → ℕ) (W : ℕ) (rq : Fin n → WaltRq) (idle : Bool)
    (cpu : Fin n) (ops : List (TaskOp n)) {s : TaskSys n}
    (hok : Meets (taskStep cluster) (TaskOp.KeepsSums cluster) (.init W rq idle cpu) ops)
    (hrun : run (taskStep cluster) (.init W rq idle cpu) ops = some s)
    (hsettled : s.p.enqueueAfterMigration = 0) :
    s.p.currWindow = (∑ i, s.p.currWindowCpu i) % 2 ^ 32 ∧ s.p.prevWindow = (∑ i, s.p.prevWindowCpu i) % 2 ^ 32 := by
  have h : WindowInv cluster s.p :=
    run_inv (windowInv_step cluster) (windowInv_init cluster idle cpu) hok hrun
  cases hgrp : s.p.grp with
  | true => exact h.grouped hgrp
  | false =>
    have hboth := h.confined hgrp (by omega)
    exact ⟨hboth.1.1, hboth.2.1⟩

def ranOnZero : List (TaskOp 4) :=
  [.update ⟨.taskWake, 2000, 0, false, true, false, 1024⟩, .update ⟨.putPrevTask, 502000, 0, true, true, false, 1024⟩]

def groupTrace : List (TaskOp 4) :=
  ranOnZero ++
    [.setTaskCpu ⟨2, wakingAt 503000⟩, .enqueue (wakingAt 504000),
      .transfer true (wakingAt 505000) (wakingAt 505000),
      .update ⟨.putPrevTask, 9000000, 0, true, true, false, 1024⟩,
      .setTaskCpu ⟨0, wakingAt 9100000⟩,
      .transfer false (wakingAt 9200000) (wakingAt 9300000)]

/-- It moves to the other cluster, joins the group, runs into the next window, moves back and
leaves the group. -/
theorem windows_are_sums_groupTrace :
    ∃ s : TaskSys 4,
      run (taskStep twoByTwo) (.init 8000000 (fun _ => .init 8000000 1000) false 0) groupTrace =
        some s ∧
      s.p.currWindow = 999000 ∧ s.p.prevWindow = (∑ i, s.p.prevWindowCpu i) % 2 ^ 32 :=
  ⟨_, (some_get (by decide +kernel)).symm, by decide +kernel,
    (windows_are_sums twoByTwo 8000000 _ false 0 groupTrace (by decide +kernel)
      (some_get _).symm (by decide +kernel)).2⟩

/-- A second move of the other kind leaves the array empty, or counts the task twice; a move to the other cluster
by the ext class leaves the contributions of the old one behind. -/
theorem windows_are_not_sums :
    (∃ s : TaskSys 4,
      run (taskStep twoByTwo) (.init 8000000 (fun _ => .init 8000000 1000) false 0)
        (ranOnZero ++ [.setTaskCpu ⟨2, wakingAt 503000⟩, .setTaskCpu ⟨3, wakingAt 504000⟩,
          .enqueue (wakingAt 505000)]) = some s ∧
      s.p.enqueueAfterMigration = 0 ∧ s.p.currWindow = 500000 ∧ ∑ i, s.p.currWindowCpu i = 0) ∧
    (∃ s : TaskSys 4,
      run (taskStep twoByTwo) (.init 8000000 (fun _ => .init 8000000 1000) false 0)
        (ranOnZero ++ [.setTaskCpu ⟨1, wakingAt 503000⟩, .setTaskCpu ⟨2, wakingAt 504000⟩,
          .enqueue (wakingAt 505000)]) = some s ∧
      s.p.enqueueAfterMigration = 0 ∧ s.p.currWindow = 500000 ∧ ∑ i, s.p.currWindowCpu i = 1000000) ∧
    ∃ s : TaskSys 4,
      run (taskStep twoByTwo) (.init 8000000 (fun _ => .init 8000000 1000) false 0)
        (ranOnZero ++ [.scxSetTaskCpu 2, .update (wakingAt 600000),
          .update ⟨.putPrevTask, 900000, 0, true, true, false, 1024⟩, .setTaskCpu ⟨1, wakingAt 901000⟩,
          .enqueue (wakingAt 902000)]) = some s ∧
      s.p.enqueueAfterMigration = 0 ∧ s.p.currWindow = 800000 ∧ ∑ i, s.p.currWindowCpu i = 1300000 :=
  ⟨⟨_, (some_get (by decide +kernel)).symm, by decide +kernel⟩,
    ⟨_, (some_get (by decide +kernel)).symm, by decide +kernel⟩,
    _, (some_get (by decide +kernel)).symm, by decide +kernel⟩

end VendorKernel.Walt
