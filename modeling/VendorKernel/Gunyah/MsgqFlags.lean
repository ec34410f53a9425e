import Mathlib.Logic.Function.Basic
import Mathlib.Tactic.SplitIfs
import VendorKernel.Lib.Machine

/-! The flags `tx_full` and `rx_empty` of a Gunyah message queue (`gh_msgq.c`): one direction of an entry of
the capability table, the threads, the hypervisor's queues and interrupts, and the resource manager that
binds the label to queues. -/
namespace VendorKernel.Gunyah

open Machine Option Function

inductive Direction where
  | tx
  | rx
deriving DecidableEq

structure Msgq where
  count : ℕ
  depth : ℕ
  pending : Bool

/-- `GH_ERROR_OK` with `not_full` or `not_empty`, `GH_ERROR_MSGQUEUE_FULL` or `_EMPTY`, another error. -/
inductive HcallResult where
  | ok (more : Bool)
  | blocked
  | error
deriving DecidableEq

/-- `gh_msgq_populate_cap_info` has requested the interrupt, or `gh_msgq_reset_cap_info` cleared the capability. -/
inductive CapPlace where
  | idle
  | populating
  | resetting
deriving DecidableEq

structure MsgqEnd where
  /-- `tx_cap_id` or `rx_cap_id`; `none` is `GH_CAPID_INVAL`. -/
  capId : Option ℕ
  /-- The queue whose interrupt has a handler. -/
  irq : Option ℕ
  flag : Bool
  /-- `tx_lock` or `rx_lock` is held: the hypercall has returned, the flag is still to be set. -/
  call : Option HcallResult
  place : CapPlace
  queues : ℕ → Msgq
  made : ℕ

inductive MsgqOp where
  /-- `gh_msgq_populate_cap_info` up to `request_irq`, for a new queue. -/
  | requestIrq (depth : ℕ)
  | bind
  /-- `gh_msgq_reset_cap_info` up to `free_irq`. -/
  | unbind
  | freeIrq
  | hcall
  | setFlag
  | peer (q : ℕ)
  | isr

namespace Msgq

variable {d : Direction} {queue : Msgq}

def Blocked (d : Direction) (queue : Msgq) : Prop :=
  match d with
  | .tx => queue.count = queue.depth
  | .rx => queue.count = 0

instance (d : Direction) (queue : Msgq) : Decidable (queue.Blocked d) :=
  match d with
  | .tx => inferInstanceAs (Decidable (queue.count = queue.depth))
  | .rx => inferInstanceAs (Decidable (queue.count = 0))

def pass (d : Direction) (queue : Msgq) : Msgq :=
  match d with
  | .tx => { queue with count := queue.count + 1 }
  | .rx => { queue with count := queue.count - 1 }

def hcall (d : Direction) (queue : Msgq) : Msgq × HcallResult :=
  if queue.Blocked d then (queue, .blocked)
  else (queue.pass d, .ok (decide ¬(queue.pass d).Blocked d))

/-- The other VM's hypercall on the queue. It raises the interrupt when the queue leaves the state
that blocks this side. -/
def peer (d : Direction) (queue : Msgq) : Option Msgq :=
  match d with
  | .tx =>
    if queue.count = 0 then none
    else some { queue with count := queue.count - 1, pending := queue.pending || decide (queue.Blocked .tx) }
  | .rx =>
    if queue.count = queue.depth then none
    else some { queue with count := queue.count + 1, pending := queue.pending || decide (queue.Blocked .rx) }

def Covered (d : Direction) (queue : Msgq) : Prop := queue.Blocked d ∨ queue.pending = true

end Msgq

def HcallResult.flag (result : HcallResult) (flag : Bool) : Bool :=
  match result with
  | .ok more => !more
  | .blocked => true
  | .error => flag

namespace MsgqEnd

def start (d : Direction) : MsgqEnd :=
  { capId := none, irq := none, flag := decide (d = .rx), call := none, place := .idle,
    queues := fun _ => ⟨0, 0, false⟩, made := 0 }

/-- The resource manager populates and resets the entry one call after the other: there is one `place`. -/
def step (d : Direction) (s : MsgqEnd) : MsgqOp → Option MsgqEnd
  | .requestIrq depth =>
    if s.place = .idle ∧ s.capId = none ∧ 0 < depth then
      some { s with
        irq := some s.made
        queues := update s.queues s.made ⟨0, depth, false⟩
        made := s.made + 1
        place := .populating }
    else none
  | .bind => if s.place = .populating then some { s with capId := s.irq, place := .idle } else none
  | .unbind =>
    if s.place = .idle ∧ s.capId ≠ none then some { s with capId := none, place := .resetting } else none
  | .freeIrq => if s.place = .resetting then some { s with irq := none, place := .idle } else none
  | .hcall =>
    if s.call = none then
      match s.capId with
      | none => some { s with call := some .error }
      | some q =>
        match (s.queues q).hcall d with
        | (queue, result) => some { s with queues := update s.queues q queue, call := some result }
    else none
  | .setFlag =>
    match s.call with
    | none => none
    | some result => some { s with flag := result.flag s.flag, call := none }
  | .peer q => ((s.queues q).peer d).map fun queue => { s with queues := update s.queues q queue }
  | .isr =>
    match s.irq with
    | none => none
    | some q =>
      if s.call = none ∧ (s.queues q).pending = true then
        some { s with flag := false, queues := update s.queues q { s.queues q with pending := false } }
      else none

/-- A thread that waits for the flag is bound to a queue that will wake it. -/
def Woken (d : Direction) (s : MsgqEnd) : Prop :=
  ∀ q, s.capId = some q → s.irq = some q ∧ (s.flag = true → (s.queues q).Covered d)

/-- A new queue is populated while no hypercall has its flag still to set and, for a sender, while the
flag is clear. -/
def Fresh (d : Direction) (s : MsgqEnd) : MsgqOp → Prop
  | .requestIrq _ => s.call = none ∧ (d = .tx → s.flag = false)
  | _ => True

instance (d : Direction) (s : MsgqEnd) : ∀ op, Decidable (Fresh d s op)
  | .requestIrq _ => inferInstanceAs (Decidable (s.call = none ∧ (d = .tx → s.flag = false)))
  | .bind | .unbind | .freeIrq | .hcall | .setFlag | .peer _ | .isr => .isTrue trivial

end MsgqEnd

namespace Msgq

variable {d : Direction} {queue queue' : Msgq}

theorem blocked_of_hcall {flag : Bool} (h : (queue.hcall d).2.flag flag = true) : (queue.hcall d).1.Blocked d := by
  unfold hcall at h ⊢
  split_ifs at h ⊢ with hblk
  · exact hblk
  · simpa [HcallResult.flag] using h

theorem Covered.hcall (h : queue.Covered d) : (queue.hcall d).1.Covered d := by
  unfold Msgq.hcall
  split_ifs with hblk
  · exact h
  · refine .inr ?_
    have hpend := h.resolve_left hblk
    cases d with
    | tx => exact hpend
    | rx => exact hpend

theorem Covered.peer (h : queue.Covered d) (hs : queue.peer d = some queue') : queue'.Covered d := by
  refine .inr ?_
  have hpend : (queue.pending || decide (queue.Blocked d)) = true := by
    rcases h with hblk | hpend
    · simp [hblk]
    · simp [hpend]
  unfold Msgq.peer at hs
  cases d with dsimp only at hs
  | tx =>
    split_ifs at hs
    cases hs
    exact hpend
  | rx =>
    split_ifs at hs
    cases hs
    exact hpend

end Msgq

namespace MsgqEnd

variable {d : Direction} {s s' : MsgqEnd}

def Target (s : MsgqEnd) (q : ℕ) : Prop := s.capId = some q ∨ s.place = .populating ∧ s.irq = some q

/-- The interrupt has the handler, and the flag, now and after the call in progress, is not set for nothing. -/
structure Good (d : Direction) (s : MsgqEnd) (q : ℕ) : Prop where
  irq : s.irq = some q
  flag : s.flag = true → (s.queues q).Covered d
  call : ∀ result, s.call = some result → result.flag s.flag = true → (s.queues q).Covered d

structure Inv (d : Direction) (s : MsgqEnd) : Prop where
  good : ∀ q, s.Target q → s.Good d q
  unbound : s.place ≠ .idle → s.capId = none

theorem inv_start (d : Direction) : (start d).Inv d where
  good q h := by
    rcases h with h | ⟨h, -⟩ <;> cases h
  unbound h := absurd rfl h

section
variable (h : s.Inv d)
include h

theorem Inv.requestIrq {depth : ℕ} (hfs : s.Fresh d (.requestIrq depth))
    (hs : s.step d (.requestIrq depth) = some s') : s'.Inv d := by
  simp only [step] at hs
  split_ifs at hs with hcond
  cases hs
  obtain ⟨hcall, hflag⟩ := hfs
  refine ⟨fun q htgt => ?_, fun _ => hcond.2.1⟩
  obtain rfl : s.made = q := by
    rcases htgt with hcap | ⟨-, hirq⟩
    · rw [hcond.2.1] at hcap
      cases hcap
    · exact some.inj hirq
  refine ⟨rfl, fun hset => .inl ?_, fun result hres => ?_⟩
  · -- an empty queue blocks a receiver; a sender has the flag clear
    cases d with
    | tx =>
      rw [hflag rfl] at hset
      cases hset
    | rx => simp [Msgq.Blocked]
  · rw [hcall] at hres
    cases hres

/-- A call that will set the flag found the queue blocked. -/
theorem Inv.hcall (hs : s.step d .hcall = some s') : s'.Inv d := by
  simp only [step] at hs
  by_cases hfree : s.call = none
  case neg =>
    rw [if_neg hfree] at hs
    cases hs
  rw [if_pos hfree] at hs
  split at hs
  · cases hs
    refine ⟨fun q htgt => ?_, h.unbound⟩
    obtain ⟨hirq, hflag, -⟩ := h.good q htgt
    refine ⟨hirq, hflag, fun result hres hset => hflag ?_⟩
    cases hres
    exact hset
  · next q hcap =>
    cases hs
    refine ⟨fun q' htgt => ?_, h.unbound⟩
    have hq : q = q' := by
      rcases htgt with hcap' | ⟨hpc, -⟩
      · exact some.inj (hcap.symm.trans hcap')
      · have hnone := h.unbound (by simp [show s.place = .populating from hpc])
        rw [hcap] at hnone
        cases hnone
    subst hq
    obtain ⟨hirq, hflag, -⟩ := h.good q (.inl hcap)
    refine ⟨hirq, fun hset => ?_, fun result hres hset => ?_⟩
    · simp only [update_self]
      exact (hflag hset).hcall
    · cases hres
      simp only [update_self]
      exact .inl (Msgq.blocked_of_hcall hset)

theorem Inv.peer {q : ℕ} (hs : s.step d (.peer q) = some s') : s'.Inv d := by
  obtain ⟨queue, hpeer, rfl⟩ := map_eq_some_iff.mp hs
  refine ⟨fun q' htgt => ?_, h.unbound⟩
  obtain ⟨hirq, hflag, hcall⟩ := h.good q' htgt
  have hkeep : (s.queues q').Covered d → (update s.queues q queue q').Covered d := by
    intro hcovered
    by_cases hq : q' = q
    · subst hq
      rw [update_self]
      exact hcovered.peer hpeer
    · rwa [update_of_ne hq]
  exact ⟨hirq, fun hset => hkeep (hflag hset), fun result hres hset => hkeep (hcall result hres hset)⟩

theorem Inv.isr (hs : s.step d .isr = some s') : s'.Inv d := by
  simp only [step] at hs
  split at hs
  · cases hs
  next q hirq =>
  split_ifs at hs with hcond
  cases hs
  refine ⟨fun q' htgt => ?_, h.unbound⟩
  refine ⟨(h.good q' htgt).irq, fun hset => absurd hset Bool.false_ne_true, fun result hres => ?_⟩
  have hnone : s.call = some result := hres
  rw [hcond.1] at hnone
  cases hnone

/-- No step leaves the flag set for nothing. -/
theorem Inv.step {op : MsgqOp} (hfs : s.Fresh d op) (hs : s.step d op = some s') : s'.Inv d := by
  cases op with
  | requestIrq depth => exact h.requestIrq hfs hs
  | hcall => exact h.hcall hs
  | peer q => exact h.peer hs
  | isr => exact h.isr hs
  | bind =>
    obtain ⟨hpc, ⟨⟩⟩ := ite_none_right_eq_some.mp hs
    refine ⟨fun q htgt => ?_, fun hne => absurd rfl hne⟩
    rcases htgt with hcap | ⟨⟨⟩, -⟩
    obtain ⟨hirq, hflag, hcall⟩ := h.good q (.inr ⟨hpc, hcap⟩)
    exact ⟨hirq, hflag, hcall⟩
  | unbind =>
    obtain ⟨-, ⟨⟩⟩ := ite_none_right_eq_some.mp hs
    refine ⟨fun q htgt => ?_, fun _ => rfl⟩
    obtain ⟨⟨⟩⟩ | ⟨⟨⟩, -⟩ := htgt
  | freeIrq =>
    obtain ⟨hpc, ⟨⟩⟩ := ite_none_right_eq_some.mp hs
    have hnone := h.unbound (by simp [hpc])
    refine ⟨fun q htgt => ?_, fun hne => absurd rfl hne⟩
    rcases htgt with hcap | ⟨⟨⟩, -⟩
    cases hnone.symm.trans hcap
  | setFlag =>
    simp only [MsgqEnd.step] at hs
    split at hs
    · cases hs
    next result hcall =>
    cases hs
    refine ⟨fun q htgt => ?_, h.unbound⟩
    have hgood := h.good q htgt
    exact ⟨hgood.irq, hgood.call result hcall, nofun⟩

end

def drainedRun : List MsgqOp :=
  [.requestIrq 1, .bind, .hcall, .setFlag, .peer 0, .isr, .unbind, .freeIrq, .requestIrq 1, .bind, .hcall, .setFlag]

end MsgqEnd

end VendorKernel.Gunyah
