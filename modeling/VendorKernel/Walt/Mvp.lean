import Mathlib.Data.Int.Notation
import Mathlib.Tactic.SplitIfs
import VendorKernel.Lib.Machine

/-! The demotion of MVP tasks (`walt_cfs.c`). -/
namespace VendorKernel.Walt.Mvp

open Machine Option

def WALT_MVP_SLICE : ℕ := 3000000

def WALT_MVP_LIMIT : ℕ := 4 * WALT_MVP_SLICE

def WALT_NOT_MVP : ℤ := -1

def WALT_BINDER_MVP : ℤ := 1

def WALT_PIPELINE_MVP : ℤ := 4

def waltCfsMvpTaskLimit (mvpPrio : ℤ) : ℕ :=
  if mvpPrio = WALT_BINDER_MVP then WALT_MVP_SLICE
  else if mvpPrio = WALT_PIPELINE_MVP then 2 * WALT_MVP_LIMIT
  else WALT_MVP_LIMIT

/-- The part of `struct walt_task_struct` for MVP tasks; `listed`: `mvp_list` is in a list. -/
structure Task where
  listed : Bool
  mvpPrio : ℤ
  totalExec : ℕ
  snapshotForTotal : ℕ
  snapshotForSlice : ℕ
  /-- Not in the source: the task has exceeded its limit since it last slept. -/
  demoted : Bool

namespace Task

def deactivate (t : Task) : Task := { t with listed := false, mvpPrio := WALT_NOT_MVP }

/-- `walt_cfs_account_mvp_runtime` for a task in a list: whether its slice has expired, and the task. -/
def account (t : Task) (sumExecRuntime : ℕ) : Bool × Task :=
  let t := { t with totalExec := sumExecRuntime - t.snapshotForTotal }
  let slice := sumExecRuntime - t.snapshotForSlice
  if slice < if t.mvpPrio = WALT_PIPELINE_MVP then WALT_MVP_LIMIT else WALT_MVP_SLICE then (false, t)
  else
    let t := { t with snapshotForSlice := sumExecRuntime }
    if waltCfsMvpTaskLimit t.mvpPrio < t.totalExec then (true, { t.deactivate with demoted := true })
    else (true, t)

/-- `walt_cfs_enqueue_task` for a task of priority `mvpPrio`, if it puts the task in the list. -/
def enqueue (t : Task) (mvpPrio : ℤ) (sumExecRuntime : ℕ) : Option Task :=
  if mvpPrio = WALT_NOT_MVP then none
  else if waltCfsMvpTaskLimit t.mvpPrio < t.totalExec then none
  else
    let t := { t with listed := true, mvpPrio := mvpPrio }
    if t.totalExec = 0 then
      some { t with snapshotForTotal := sumExecRuntime, snapshotForSlice := sumExecRuntime }
    else some t

def dequeue (t : Task) (asleep : Bool) : Task :=
  let t := if t.listed then t.deactivate else t
  if asleep then { t with totalExec := 0, demoted := false } else t

inductive Event where
  | account (sumExecRuntime : ℕ)
  | dequeue
  | enqueue (sumExecRuntime : ℕ)

/-- Only a task in a list is accounted, and it is not enqueued again. -/
def step (mvpPrio : ℤ) (t : Task) : Event → Option Task
  | .account sum => if t.listed then some (t.account sum).2 else none
  | .dequeue => some (t.dequeue false)
  | .enqueue sum => if t.listed then none else some ((t.enqueue mvpPrio sum).getD t)

def woken (total slice : ℕ) : Task := ⟨false, WALT_NOT_MVP, 0, total, slice, false⟩

/-- An enqueue, which does not know the class of a task outside of the lists, decides as the class's limit does. -/
def Decides (mvpPrio : ℤ) (t : Task) : Event → Prop
  | .enqueue _ => (t.demoted → WALT_MVP_LIMIT < t.totalExec) ∧
    (t.totalExec ≤ waltCfsMvpTaskLimit mvpPrio → t.totalExec ≤ WALT_MVP_LIMIT)
  | _ => True

structure Inv (t : Task) : Prop where
  mvpPrio : t.listed = false → t.mvpPrio = WALT_NOT_MVP
  demoted : t.demoted → t.listed = false

variable {mvpPrio : ℤ} {t t' : Task} {sum : ℕ}

theorem step_enqueue (hclass : mvpPrio ≠ WALT_NOT_MVP) (h : t.Inv) (hs : t.step mvpPrio (.enqueue sum) = some t') :
    t'.demoted = t.demoted ∧ (t'.listed = true ↔ t.totalExec ≤ WALT_MVP_LIMIT) ∧
      (t'.listed = false → t' = t) ∧ (t'.listed = true → t'.mvpPrio = mvpPrio) := by
  simp only [step, ite_none_left_eq_some, Bool.not_eq_true, some.injEq] at hs
  obtain ⟨hlisted, rfl⟩ := hs
  have hlimit : waltCfsMvpTaskLimit t.mvpPrio = WALT_MVP_LIMIT := by
    rw [h.mvpPrio hlisted]
    rfl
  rw [← Nat.not_lt, enqueue, if_neg hclass, hlimit]
  dsimp only
  split_ifs with hover <;> simp [hover, hlisted]

/-- A demoted task is out of the lists. -/
theorem inv_step (hclass : mvpPrio ≠ WALT_NOT_MVP) (h : t.Inv) {e : Event} (hok : t.Decides mvpPrio e)
    (hs : t.step mvpPrio e = some t') : t'.Inv := by
  cases e with
  | account sum =>
    obtain ⟨hlisted, heq⟩ := ite_none_right_eq_some.mp hs
    cases heq
    fun_cases account t sum with
    | case1 | case3 => exact { h with }
    | case2 => exact ⟨fun _ => rfl, fun _ => rfl⟩
  | dequeue =>
    cases hs
    cases hlisted : t.listed with
    | true => simp [dequeue, hlisted, deactivate, Inv.mk]
    | false => simpa [dequeue, hlisted] using h
  | enqueue sum =>
    obtain ⟨hdem, hiff, hsame, -⟩ := step_enqueue hclass h hs
    cases hlisted : t'.listed with
    | true =>
      refine ⟨by simp [hlisted], fun hd => ?_⟩
      have := hok.1 (hdem ▸ hd)
      have := hiff.mp hlisted
      omega
    | false => exact hsame hlisted ▸ h

/-- What holds for the classes that have the limit which enqueues assume: all their enqueues decide right. -/
structure Settled (prio : ℤ) (t : Task) : Prop extends Inv t where
  above : t.demoted → WALT_MVP_LIMIT < t.totalExec
  known : t.listed = true → t.mvpPrio = prio

/-- A demoted task has run longer than enqueues allow. -/
theorem settled_step (hclass : mvpPrio ≠ WALT_NOT_MVP) (hlimit : waltCfsMvpTaskLimit mvpPrio = WALT_MVP_LIMIT)
    (h : t.Settled mvpPrio) {e : Event} (hs : t.step mvpPrio e = some t') : t'.Settled mvpPrio := by
  have habove := h.above
  have hknown := h.known
  have hok : t.Decides mvpPrio e := by
    cases e with
    | enqueue => exact ⟨habove, hlimit ▸ id⟩
    | _ => trivial
  have hinv := inv_step hclass h.toInv hok hs
  cases e with
  | account sum =>
    obtain ⟨hlisted, ⟨⟩⟩ := ite_none_right_eq_some.mp hs
    have hnot : ¬t.demoted = true := fun hd => by simpa [hlisted] using h.demoted hd
    have hlim : WALT_MVP_LIMIT = waltCfsMvpTaskLimit t.mvpPrio := by rw [hknown hlisted, hlimit]
    have hacc : ((t.account sum).2.demoted → WALT_MVP_LIMIT < (t.account sum).2.totalExec) ∧
        ((t.account sum).2.listed = true → (t.account sum).2.mvpPrio = mvpPrio) := by
      fun_cases account t sum with
      | case1 | case3 => exact ⟨fun hd => absurd hd hnot, fun _ => hknown hlisted⟩
      | case2 _ _ _ _ hlt => exact ⟨fun _ => hlim ▸ hlt, nofun⟩
    exact { hinv with above := hacc.1, known := hacc.2 }
  | dequeue =>
    cases hs
    refine { hinv with above := ?_, known := ?_ } <;> cases hlisted : t.listed <;> simp_all [dequeue, deactivate]
  | enqueue sum =>
    obtain ⟨hdem, hiff, hsame, hprio⟩ := step_enqueue hclass h.toInv hs
    refine { hinv with above := fun hd => ?_, known := hprio }
    cases hlisted : t'.listed with
    | false => exact hsame hlisted ▸ habove (hdem ▸ hd)
    | true => exact absurd (hiff.mp hlisted) (Nat.not_le.mpr (habove (hdem ▸ hd)))

def longRun : List Event := [.enqueue 0, .account 13000000, .dequeue, .enqueue 0]

end Task

end VendorKernel.Walt.Mvp
