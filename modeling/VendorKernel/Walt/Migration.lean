import VendorKernel.Walt.BusyTime
import VendorKernel.Lib.Machine

/-! Migration of a task between runqueues and in and out of the related thread group: what its busy time does
to the sums of the CPUs. CPUs of one cluster share a frequency domain. -/
namespace VendorKernel.Walt

open Function Option WaltTask

variable {n W : ℕ}

def BusySums.sub (s : BusySums) (curr prev : ℕ) (newTask : Bool) : BusySums where
  currRunnableSum := s.currRunnableSum - curr
  prevRunnableSum := s.prevRunnableSum - prev
  ntCurrRunnableSum := if newTask then s.ntCurrRunnableSum - curr else s.ntCurrRunnableSum
  ntPrevRunnableSum := if newTask then s.ntPrevRunnableSum - prev else s.ntPrevRunnableSum

def BusySums.add (s : BusySums) (curr prev : ℕ) (newTask : Bool) : BusySums where
  currRunnableSum := s.currRunnableSum + curr
  prevRunnableSum := s.prevRunnableSum + prev
  ntCurrRunnableSum := if newTask then s.ntCurrRunnableSum + curr else s.ntCurrRunnableSum
  ntPrevRunnableSum := if newTask then s.ntPrevRunnableSum + prev else s.ntPrevRunnableSum

/-! ### Deferred subtractions -/

def WaltRq.prevWs (rq : WaltRq) : ℕ := (rq.windowStart + 2 ^ 64 - rq.prevWindowSize) % 2 ^ 64

def getSubtractionIndex (ls : Fin 2 → LoadSubtractions) (ws : ℕ) : (Fin 2 → LoadSubtractions) × Fin 2 :=
  if (ls 0).windowStart = ws then (ls, 0)
  else if (ls 1).windowStart = ws then (ls, 1)
  else
    let oldest : Fin 2 := if (ls 1).windowStart < (ls 0).windowStart then 1 else 0
    (update ls oldest ⟨ws, 0, 0⟩, oldest)

def updateRqLoadSubtractions (ls : Fin 2 → LoadSubtractions) (index : Fin 2) (subLoad : ℕ)
    (newTask : Bool) : Fin 2 → LoadSubtractions :=
  update ls index
    { ls index with
      subs := (ls index).subs + subLoad
      newSubs := if newTask then (ls index).newSubs + subLoad else (ls index).newSubs }

def deferSubtraction (ls : Fin 2 → LoadSubtractions) (ws subLoad : ℕ) (newTask : Bool) : Fin 2 → LoadSubtractions :=
  if subLoad = 0 then ls
  else
    let (ls, index) := getSubtractionIndex ls ws
    updateRqLoadSubtractions ls index subLoad newTask

/-- The loop over the other CPUs of the cluster; each round touches its own CPU only. -/
def updateClusterLoadSubtractions (cluster : Fin n → ℕ) (rq : Fin n → WaltRq) (p : WaltTask n)
    (cpu : Fin n) (newTask : Bool) : (Fin n → WaltRq) × WaltTask n :=
  let ws := (rq cpu).windowStart
  let prevWs := (rq cpu).prevWs
  (fun i =>
    if i ≠ cpu ∧ cluster i = cluster cpu then
      let ls := deferSubtraction (rq i).loadSubs ws (p.currWindowCpu i) newTask
      { rq i with loadSubs := deferSubtraction ls prevWs (p.prevWindowCpu i) newTask }
    else rq i,
    { p with
      currWindowCpu :=
        fun i => if i ≠ cpu ∧ cluster i = cluster cpu then 0 else p.currWindowCpu i
      prevWindowCpu :=
        fun i => if i ≠ cpu ∧ cluster i = cluster cpu then 0 else p.prevWindowCpu i })

/-! ### Migration -/

def migrateInterClusterSubtraction (cluster : Fin n → ℕ) (rq : Fin n → WaltRq) (p : WaltTask n)
    (taskCpu : Fin n) (newTask : Bool) : (Fin n → WaltRq) × WaltTask n :=
  let src := rq taskCpu
  let sums := src.sums.sub (p.currWindowCpu taskCpu) (p.prevWindowCpu taskCpu) newTask
  let p :=
    { p with currWindowCpu := update p.currWindowCpu taskCpu 0, prevWindowCpu := update p.prevWindowCpu taskCpu 0 }
  updateClusterLoadSubtractions cluster (update rq taskCpu { src with sums := sums }) p taskCpu newTask

def WaltTask.allOn (p : WaltTask n) (cpu : Fin n) : WaltTask n :=
  { p with
    currWindowCpu := update p.currWindowCpu cpu p.currWindow
    prevWindowCpu := update p.prevWindowCpu cpu p.prevWindow }

def migrateInterClusterAddition (dest : WaltRq) (p : WaltTask n) (newCpu : Fin n)
    (newTask : Bool) : WaltRq × WaltTask n :=
  ({ dest with sums := dest.sums.add p.currWindow p.prevWindow newTask }, p.allOn newCpu)

/-- The source gives up what the task had there. Within a cluster the busy time of a task outside the group
stays where it was spent. -/
def subtractFromSource (cluster : Fin n → ℕ) (rq : Fin n → WaltRq) (p : WaltTask n) : (Fin n → WaltRq) × WaltTask n :=
  let newTask := isNewTask p
  let src := rq p.cpu
  let (rq, p) :=
    if p.grp then
      (update rq p.cpu
        { src with grpTime := src.grpTime.sub p.currWindow p.prevWindow newTask }, p)
    else if p.enqueueAfterMigration = 2 then
      migrateInterClusterSubtraction cluster rq p p.cpu newTask
    else (rq, p)
  (update rq p.cpu
    { rq p.cpu with top := (rq p.cpu).top.migrateTopTasksSubtraction p.currWindow p.prevWindow }, p)

def moveKind (cluster : Fin n → ℕ) (c c' : Fin n) : ℕ := if cluster c ≠ cluster c' then 2 else 1

def WaltTask.startMove (p : WaltTask n) (cluster : Fin n → ℕ) (newCpu : Fin n) : WaltTask n :=
  { p with newCpu := some newCpu, enqueueAfterMigration := moveKind cluster p.cpu newCpu }

/-- `migrate_busy_time_subtraction`. A second migration before the enqueue finds the source
already settled. -/
def migrateBusyTimeSubtraction (schedRavgWindow : ℕ) (cluster : Fin n → ℕ) (rq : Fin n → WaltRq)
    (p : WaltTask n) (newCpu : Fin n) (e : RavgEvent) : Option ((Fin n → WaltRq) × WaltTask n) :=
  let doubleMigrate : Bool := p.enqueueAfterMigration ≠ 0
  (waltUpdateTaskRavg schedRavgWindow (rq p.cpu) p.cpu (p.startMove cluster newCpu)
    { e with event := .taskMigrate, irqtime := 0 }).map fun (src, p) =>
      let rq := update rq p.cpu src
      let (rq, p) := if doubleMigrate then (rq, p) else subtractFromSource cluster rq p
      (rq, { p with prevCpu := p.cpu })

def addToDestination (rq : Fin n → WaltRq) (p : WaltTask n) (newCpu : Fin n) : (Fin n → WaltRq) × WaltTask n :=
  let newTask := isNewTask p
  let dest := rq newCpu
  let (dest, p) :=
    if p.grp then
      ({ dest with grpTime := dest.grpTime.add p.currWindow p.prevWindow newTask }, p)
    else if p.enqueueAfterMigration = 2 then migrateInterClusterAddition dest p newCpu newTask
    else (dest, p)
  let rq := update rq newCpu
    { dest with top := dest.top.migrateTopTasksAddition p.currWindow p.prevWindow }
  let rq :=
    if p.enqueueAfterMigration = 2 then
      fun i => if i = p.prevCpu ∨ i = newCpu then { rq i with notifPending := true } else rq i
    else rq
  (rq, { p with newCpu := none })

def migrateBusyTimeAddition (schedRavgWindow : ℕ) (rq : Fin n → WaltRq) (p : WaltTask n)
    (newCpu : Fin n) (e : RavgEvent) : Option ((Fin n → WaltRq) × WaltTask n) :=
  (waltUpdateTaskRavg schedRavgWindow (rq newCpu) newCpu p
    { e with event := .taskUpdate, irqtime := 0 }).map fun (dest, p) =>
      addToDestination (update rq newCpu dest) p newCpu

structure RqsTask (n : ℕ) where
  rq : Fin n → WaltRq
  p : WaltTask n

structure Hop (n : ℕ) where
  newCpu : Fin n
  env : RavgEvent

/-- `set_task_cpu` of a task that is queued or waking up, and so not running: the hook past its test of
`task_on_scx`, then the move. -/
def setTaskCpu (schedRavgWindow : ℕ) (cluster : Fin n → ℕ) (s : RqsTask n) (h : Hop n) : Option (RqsTask n) :=
  (migrateBusyTimeSubtraction schedRavgWindow cluster s.rq s.p h.newCpu
    { h.env with isCurr := false }).map fun (rq, p) => ⟨rq, { p with cpu := h.newCpu }⟩

/-- The accounting of `android_rvh_enqueue_task` past its test of `task_on_scx`. A task with a pending migration
is not running. -/
def enqueueTask (schedRavgWindow : ℕ) (s : RqsTask n) (e : RavgEvent) : Option (RqsTask n) :=
  if s.p.enqueueAfterMigration ≠ 0 then
    (migrateBusyTimeAddition schedRavgWindow s.rq s.p s.p.cpu { e with isCurr := false }).map
      fun (rq, p) => ⟨rq, { p with enqueueAfterMigration := 0 }⟩
  else some s

def migrate (schedRavgWindow : ℕ) (cluster : Fin n → ℕ) (s : RqsTask n) (hops : List (Hop n))
    (e : RavgEvent) : Option (RqsTask n) :=
  (Machine.run (setTaskCpu schedRavgWindow cluster) s hops).bind
    fun s => enqueueTask schedRavgWindow s e

/-- `transfer_busy_time`: the task enters or leaves the group. A pending migration is completed first, with a
clock of its own. -/
def transferBusyTime (schedRavgWindow : ℕ) (cluster : Fin n → ℕ) (s : RqsTask n) (addTask : Bool)
    (e e' : RavgEvent) : Option (RqsTask n) :=
  let cpu := s.p.cpu
  (waltUpdateTaskRavg schedRavgWindow (s.rq cpu) cpu s.p
    { e with event := .taskUpdate, irqtime := 0 }).bind fun (wrq, p) =>
      let newTask := isNewTask p
      (enqueueTask schedRavgWindow ⟨update s.rq cpu wrq, p⟩ e').map fun ⟨rq, p⟩ =>
        if addTask then
          let wrq :=
            { rq cpu with sums := (rq cpu).sums.sub (p.currWindowCpu cpu) (p.prevWindowCpu cpu) newTask }
          let (rq, p) :=
            updateClusterLoadSubtractions cluster (update rq cpu wrq) p cpu newTask
          let wrq :=
            { rq cpu with grpTime := (rq cpu).grpTime.add p.currWindow p.prevWindow newTask }
          ⟨update rq cpu wrq, { p.allOn cpu with grp := true }⟩
        else
          let wrq :=
            { rq cpu with
              grpTime := (rq cpu).grpTime.sub p.currWindow p.prevWindow newTask
              sums := (rq cpu).sums.add p.currWindow p.prevWindow newTask }
          let p := { p with currWindowCpu := fun _ => 0, prevWindowCpu := fun _ => 0 }
          ⟨update rq cpu wrq, { p.allOn cpu with grp := false }⟩

section
variable {W : ℕ} {cluster : Fin n → ℕ} {s s' : RqsTask n}

/-- A move: the accounting call, then the source is settled unless the task was already on its
way. -/
theorem setTaskCpu_cases {h : Hop n} (hs : setTaskCpu W cluster s h = some s') :
    ∃ src p₁,
      waltUpdateTaskRavg W (s.rq s.p.cpu) s.p.cpu (s.p.startMove cluster h.newCpu)
        { h.env with isCurr := false, event := .taskMigrate, irqtime := 0 } = some (src, p₁) ∧
      (s.p.enqueueAfterMigration ≠ 0 ∧
          s' = ⟨update s.rq p₁.cpu src, { p₁ with prevCpu := p₁.cpu, cpu := h.newCpu }⟩ ∨
        s.p.enqueueAfterMigration = 0 ∧
          ∃ rq₂ p₂, subtractFromSource cluster (update s.rq p₁.cpu src) p₁ = (rq₂, p₂) ∧
            s' = ⟨rq₂, { p₂ with prevCpu := p₂.cpu, cpu := h.newCpu }⟩) := by
  obtain ⟨⟨rq, p⟩, hsub, rfl⟩ := map_eq_some_iff.mp hs
  obtain ⟨⟨src, p₁⟩, hravg, hrest⟩ := map_eq_some_iff.mp hsub
  refine ⟨src, p₁, hravg, ?_⟩
  dsimp only at hrest
  by_cases h0 : s.p.enqueueAfterMigration = 0
  · rw [if_neg (by simpa using h0)] at hrest
    cases hrest
    exact .inr ⟨h0, _, _, rfl, rfl⟩
  · rw [if_pos (by simpa using h0)] at hrest
    cases hrest
    exact .inl ⟨h0, rfl⟩

theorem enqueueTask_cases {e : RavgEvent} (hs : enqueueTask W s e = some s') :
    s.p.enqueueAfterMigration = 0 ∧ s' = s ∨
      s.p.enqueueAfterMigration ≠ 0 ∧ ∃ dest p₁ rq₂ p₂,
        waltUpdateTaskRavg W (s.rq s.p.cpu) s.p.cpu s.p
          { e with isCurr := false, event := .taskUpdate, irqtime := 0 } = some (dest, p₁) ∧
        addToDestination (update s.rq s.p.cpu dest) p₁ s.p.cpu = (rq₂, p₂) ∧
        s' = ⟨rq₂, { p₂ with enqueueAfterMigration := 0 }⟩ := by
  unfold enqueueTask at hs
  split at hs
  · next h0 =>
    obtain ⟨⟨rq, p⟩, hadd, rfl⟩ := map_eq_some_iff.mp hs
    obtain ⟨⟨dest, p₁⟩, hravg, hrest⟩ := map_eq_some_iff.mp hadd
    exact .inr ⟨h0, dest, p₁, rq, p, hravg, hrest, rfl⟩
  · next h0 => exact .inl ⟨not_not.mp h0, (some.inj hs).symm⟩

theorem transferBusyTime_cases {addTask : Bool} {e e' : RavgEvent}
    (hs : transferBusyTime W cluster s addTask e e' = some s') :
    ∃ wrq p₁ v,
      waltUpdateTaskRavg W (s.rq s.p.cpu) s.p.cpu s.p { e with event := .taskUpdate, irqtime := 0 } = some (wrq, p₁) ∧
      enqueueTask W ⟨update s.rq s.p.cpu wrq, p₁⟩ e' = some v ∧
      (∀ i, (s'.rq i).windowStart = (v.rq i).windowStart ∧
        (s'.rq i).prevWindowSize = (v.rq i).prevWindowSize ∧ (s'.rq i).top = (v.rq i).top) ∧
      ∃ currWindowCpu prevWindowCpu grp, s'.p =
        { v.p with currWindowCpu := currWindowCpu, prevWindowCpu := prevWindowCpu, grp := grp } := by
  obtain ⟨⟨wrq, p₁⟩, hravg, hrest⟩ := bind_eq_some_iff.mp hs
  obtain ⟨v, henq, rfl⟩ := map_eq_some_iff.mp hrest
  refine ⟨wrq, p₁, v, hravg, henq, ?_, ?_⟩
  · intro i
    by_cases hi : i = s.p.cpu <;> by_cases hc : cluster i = cluster s.p.cpu <;> cases addTask <;>
      simp [updateClusterLoadSubtractions, hi, hc]
  · cases addTask <;> exact ⟨_, _, _, rfl⟩

end

/-! ### What the two fixups touch -/

variable (cluster : Fin n → ℕ) (rq : Fin n → WaltRq) (p : WaltTask n)

theorem moveKind_ne_zero (c c' : Fin n) : moveKind cluster c c' ≠ 0 := by
  unfold moveKind
  split <;> decide

theorem moveKind_eq_two {cluster : Fin n → ℕ} {c c' : Fin n} :
    moveKind cluster c c' = 2 ↔ cluster c ≠ cluster c' := by
  unfold moveKind
  split <;> simp_all

theorem subtractFromSource_task :
    (subtractFromSource cluster rq p).2 =
      if p.grp = false ∧ p.enqueueAfterMigration = 2 then
        { p with
          currWindowCpu := fun i => if cluster i = cluster p.cpu then 0 else p.currWindowCpu i
          prevWindowCpu := fun i => if cluster i = cluster p.cpu then 0 else p.prevWindowCpu i }
      else p := by
  have hclr : ∀ a : Fin n → ℕ,
      (fun i => if i ≠ p.cpu ∧ cluster i = cluster p.cpu then 0
        else update a p.cpu 0 i) = fun i => if cluster i = cluster p.cpu then 0 else a i := by
    intro a
    funext i
    by_cases hi : i = p.cpu
    · subst hi
      simp
    · simp [hi]
  cases hgrp : p.grp with
  | true => simp [subtractFromSource, hgrp]
  | false =>
    by_cases h2 : p.enqueueAfterMigration = 2
    · simp only [subtractFromSource, hgrp, h2, Bool.false_eq_true, if_false, if_true, true_and,
        migrateInterClusterSubtraction, updateClusterLoadSubtractions, hclr]
    · simp [subtractFromSource, hgrp, h2]

theorem addToDestination_task (c : Fin n) :
    (addToDestination rq p c).2 =
      { (if p.grp = false ∧ p.enqueueAfterMigration = 2 then p.allOn c else p) with
        newCpu := none } := by
  cases hgrp : p.grp with
  | true => simp [addToDestination, hgrp]
  | false =>
    by_cases h2 : p.enqueueAfterMigration = 2
    · simp [addToDestination, hgrp, h2, migrateInterClusterAddition]
    · simp [addToDestination, hgrp, h2]

theorem cpu_addToDestination (c : Fin n) : (addToDestination rq p c).2.cpu = p.cpu := by
  simp only [addToDestination]
  split
  · rfl
  · split <;> rfl

theorem subtractFromSource_rq (i : Fin n) :
    ((subtractFromSource cluster rq p).1 i).windowStart = (rq i).windowStart ∧
      ((subtractFromSource cluster rq p).1 i).prevWindowSize = (rq i).prevWindowSize ∧
      ((subtractFromSource cluster rq p).1 i).top =
        if i = p.cpu then (rq i).top.migrateTopTasksSubtraction p.currWindow p.prevWindow
        else (rq i).top := by
  cases hgrp : p.grp with
  | true => by_cases hi : i = p.cpu <;> simp [subtractFromSource, hgrp, hi]
  | false =>
    by_cases h2 : p.enqueueAfterMigration = 2 <;> by_cases hi : i = p.cpu <;>
      by_cases hc : cluster i = cluster p.cpu <;>
      simp [subtractFromSource, hgrp, h2, migrateInterClusterSubtraction, updateClusterLoadSubtractions, hi, hc]

theorem addToDestination_rq (c i : Fin n) :
    ((addToDestination rq p c).1 i).windowStart = (rq i).windowStart ∧
      ((addToDestination rq p c).1 i).prevWindowSize = (rq i).prevWindowSize ∧
      ((addToDestination rq p c).1 i).top =
        if i = c then (rq i).top.migrateTopTasksAddition p.currWindow p.prevWindow
        else (rq i).top := by
  -- the report of a load to the governor touches no window and no table
  have hrpt : ∀ (b : Prop) [Decidable b] (rq : WaltRq),
      (if b then { rq with notifPending := true } else rq).windowStart = rq.windowStart ∧
        (if b then { rq with notifPending := true } else rq).prevWindowSize = rq.prevWindowSize ∧
        (if b then { rq with notifPending := true } else rq).top = rq.top := by
    intro b _ rq
    split <;> exact ⟨rfl, rfl, rfl⟩
  cases hgrp : p.grp <;> by_cases hi : i = c <;> by_cases h2 : p.enqueueAfterMigration = 2 <;>
    simp [addToDestination, hgrp, h2, migrateInterClusterAddition, allOn, hi, hrpt]

section
variable {cluster : Fin n → ℕ} {p : WaltTask n} {c cpu : Fin n}

theorem startIn_startMove (ws : ℕ) : (p.startMove cluster c).startIn ws = (p.startIn ws).startMove cluster c := by
  unfold startIn
  split <;> simp_all [startMove]

theorem enterWindow_startMove (rq : WaltRq) :
    enterWindow rq (p.startMove cluster c) = (enterWindow rq p).startMove cluster c := by
  have hnew : newWindow rq (p.startMove cluster c) = newWindow rq p := rfl
  have hidle : (p.startMove cluster c).idle = p.idle := rfl
  unfold enterWindow
  rw [hnew]
  simp only [hidle]
  split_ifs <;> rfl

theorem ravg_startMove {rq : WaltRq} {e : RavgEvent} (hidle : p.idle = false) (he : e.event = .taskMigrate) :
    waltUpdateTaskRavg W rq cpu (p.startMove cluster c) e =
      (waltUpdateTaskRavg W rq cpu p e).map fun (rq, p) => (rq, p.startMove cluster c) := by
  have hqt : ∀ ws, accountBusyForCpuTime (p.startIn ws) e = false := by
    intro ws
    rw [accountBusyForCpuTime_startIn]
    exact accountBusyForCpuTime_of_not_curr hidle (.inl he)
  have hqt' : ∀ ws, accountBusyForCpuTime ((p.startIn ws).startMove cluster c) e = false :=
    hqt
  unfold waltUpdateTaskRavg
  by_cases hskip : rq.windowStart = 0 ∨ p.markStart = e.wallclock
  · rw [if_pos hskip, if_pos (show _ ∨ (p.startMove cluster c).markStart = _ from hskip)]
    rfl
  · rw [if_neg hskip, if_neg (show ¬(_ ∨ (p.startMove cluster c).markStart = _) from hskip)]
    cases updateWindowStart W rq e.wallclock with
    | none => rfl
    | some rq₁ =>
      dsimp only
      rw [startIn_startMove]
      by_cases h0 : (p.startIn rq₁.windowStart).markStart = 0
      · rw [if_pos h0, if_pos (by exact h0)]
        rfl
      · rw [if_neg h0, if_neg (by exact h0), updateCpuBusyTime_uncharged cpu (hqt _),
          updateCpuBusyTime_uncharged cpu (hqt' _), enterWindow_startMove]
        rfl

end

/-! ### Two clusters of two CPUs -/

def twoByTwo (i : Fin 4) : ℕ := i / 2

def wakingAt (t : ℕ) : RavgEvent := ⟨.taskUpdate, t, 0, false, true, false, 1024⟩

end VendorKernel.Walt
