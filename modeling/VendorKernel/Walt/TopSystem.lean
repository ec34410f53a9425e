import VendorKernel.Walt.TaskWindows
import VendorKernel.Walt.TopIndex

/-! All tasks and all runqueues with their top-task tables, and what each task has recorded on its runqueue.
-/
namespace VendorKernel.Walt

open Machine

variable {τ : Type*} {n : ℕ}

structure Sys (τ : Type*) (n : ℕ) where
  schedRavgWindow : ℕ
  /-- Not in the source: the last clock reading. -/
  clock : ℕ
  rq : Fin n → WaltRq
  task : τ → WaltTask n

inductive SysOp (τ : Type*) (n : ℕ)
  | ravg (q : τ) (e : RavgEvent)
  | setTaskCpu (q : τ) (h : Hop n)
  | enqueue (q : τ) (e : RavgEvent)
  | transfer (q : τ) (addTask : Bool) (e e' : RavgEvent)
  | setLoadBoost (q : τ) (val : ℤ)
  /-- the end of `__walt_irq_work_locked` after a rollover, with the size asked for -/
  | windowSizeChange (thisCpu : Fin n) (wc tempSchedRavgWindow : ℕ)
  /-- the task moves while it is of the ext class -/
  | scxSetTaskCpu (q : τ) (newCpu : Fin n)
  /-- the task enters or leaves the group while it is of the ext class -/
  | scxRegroup (q : τ) (grp : Bool)

def boostedTaskLoadOf (val : ℤ) : ℤ := 10 * val + (24 * val).tdiv 100

section
variable [DecidableEq τ]

def Sys.put (s : Sys τ n) (q : τ) (t : ℕ) (v : RqsTask n) : Sys τ n :=
  { s with clock := t, rq := v.rq, task := Function.update s.task q v.p }

def Sys.ravg (s : Sys τ n) (q : τ) (e : RavgEvent) : Option (Sys τ n) :=
  (waltUpdateTaskRavg s.schedRavgWindow (s.rq (s.task q).cpu) (s.task q).cpu (s.task q) e).map
    fun (rq, p) => s.put q e.wallclock ⟨Function.update s.rq (s.task q).cpu rq, p⟩

/-- Clock readings never go back and fit a `u64`. A task with a pending migration is not charged;
the idle tasks never migrate. Where `task_on_scx` holds every hook returns at once. -/
def sysStep (cluster : Fin n → ℕ) (s : Sys τ n) : SysOp τ n → Option (Sys τ n)
  | .ravg q e =>
    if s.clock ≤ e.wallclock ∧ e.wallclock < 2 ^ 64 ∧
        ((s.task q).enqueueAfterMigration ≠ 0 → accountBusyForCpuTime (s.task q) e = false) then
      s.ravg q e
    else none
  | .setTaskCpu q h =>
    if s.clock ≤ h.env.wallclock ∧ h.env.wallclock < 2 ^ 64 ∧ (s.task q).idle = false then
      (setTaskCpu s.schedRavgWindow cluster ⟨s.rq, s.task q⟩ h).map (s.put q h.env.wallclock)
    else none
  | .enqueue q e =>
    if s.clock ≤ e.wallclock ∧ e.wallclock < 2 ^ 64 ∧ (s.task q).idle = false then
      (enqueueTask s.schedRavgWindow ⟨s.rq, s.task q⟩ e).map (s.put q e.wallclock)
    else none
  | .transfer q addTask e e' =>
    if s.clock ≤ e.wallclock ∧ e.wallclock ≤ e'.wallclock ∧ e'.wallclock < 2 ^ 64 ∧
        (s.task q).idle = false ∧ (s.task q).grp = !addTask ∧
        ((s.task q).enqueueAfterMigration ≠ 0 → e.isCurr = false) then
      (transferBusyTime s.schedRavgWindow cluster ⟨s.rq, s.task q⟩ addTask e e').map (s.put q e'.wallclock)
    else none
  | .setLoadBoost q val =>
    if -90 ≤ val ∧ val ≤ 90 then
      some (s.put q s.clock ⟨s.rq, { s.task q with loadBoost := val, boostedTaskLoad := boostedTaskLoadOf val }⟩)
    else none
  | .windowSizeChange thisCpu wc temp =>
    if s.clock ≤ wc ∧ wc < 2 ^ 64 ∧ 0 < temp ∧ temp < 2 ^ 32 then
      if s.schedRavgWindow ≠ temp ∧ wc < (s.rq thisCpu).windowStart + temp ∧
          ∀ cpu, (s.rq thisCpu).windowStart = (s.rq cpu).windowStart then
        some { s with clock := wc, schedRavgWindow := temp }
      else some { s with clock := wc }
    else none
  | .scxSetTaskCpu q newCpu =>
    if (s.task q).idle = false then some (s.put q s.clock ⟨s.rq, { s.task q with cpu := newCpu }⟩) else none
  | .scxRegroup q grp => some (s.put q s.clock ⟨s.rq, { s.task q with grp := grp }⟩)

end

/-! ### What is recorded where -/

def WaltTask.RecordedOn (p : WaltTask n) (r : Fin n) : Prop :=
  p.idle = false ∧ p.enqueueAfterMigration = 0 ∧ p.cpu = r

instance (p : WaltTask n) (r : Fin n) : Decidable (p.RecordedOn r) :=
  inferInstanceAs (Decidable (_ ∧ _ ∧ _))

def WaltTask.currOn (p : WaltTask n) (r : Fin n) (rq : WaltRq) : ℕ :=
  if p.RecordedOn r ∧ p.windowStart = rq.windowStart then p.currWindow else 0

/-- A task that was last updated in the previous window still holds it as its current one. -/
def WaltTask.prevOn (p : WaltTask n) (r : Fin n) (rq : WaltRq) : ℕ :=
  if p.RecordedOn r then
    if p.windowStart = rq.windowStart then p.prevWindow
    else if p.windowStart + rq.prevWindowSize = rq.windowStart then p.currWindow else 0
  else 0

def Sys.ledger (s : Sys τ n) (r : Fin n) : TopLedger τ where
  tables := (s.rq r).top
  curr q := (s.task q).currOn r (s.rq r)
  prev q := (s.task q).prevOn r (s.rq r)

def Sys.windows (s : Sys τ n) : Windows n where
  window := s.schedRavgWindow
  clock := s.clock
  start i := (s.rq i).windowStart
  size i := (s.rq i).prevWindowSize

def Sys.Fits [Fintype τ] (s : Sys τ n) : Prop := ∀ r, (s.ledger r).Fits

/-- What the accounting code keeps; under `T` the two tops of every runqueue are right as well. -/
structure Sys.Inv [Fintype τ] (T : Prop) (s : Sys τ n) : Prop where
  windows : s.windows.Ok
  placed : ∀ q, (s.task q).idle = false → Placed s.windows (s.task q)
  kept : ∀ r, (s.ledger r).Kept T
  fits : s.Fits

namespace Sys.Inv
variable [Fintype τ] {T : Prop} {s : Sys τ n} (h : s.Inv T)
include h

theorem window_pos : 0 < s.schedRavgWindow := h.windows.window_pos

theorem window_lt : s.schedRavgWindow < 2 ^ 32 := lt_of_le_of_lt h.windows.window_le (by decide)

theorem start_pos (r : Fin n) : 0 < (s.rq r).windowStart := h.windows.start_pos r

theorem start_le (r : Fin n) : (s.rq r).windowStart ≤ s.clock := h.windows.start_le r

end Sys.Inv

end VendorKernel.Walt
