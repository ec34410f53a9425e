import Mathlib.Data.Int.Notation
import Mathlib.Data.List.Basic

/-! The hypervisor interface of mem-buf (`mem-buf-dev.c`, `mem-buf-dev-gh.c`, `mem-buf-ids.c`): memory
is given to other VMs and taken back in two steps, each of which may fail. -/
namespace VendorKernel.MemBuf

def EINVAL : ℤ := 22
def EADDRNOTAVAIL : ℤ := 99

def MEM_BUF_MEMPARCEL_INVALID : ℕ := 0xffffffff

def VMID_HLOS : ℕ := 0x3
def VMID_TVM : ℕ := 0x2d
def VMID_OEMVM : ℕ := 0x31

def PERM_READ : ℕ := 0x4
def PERM_WRITE : ℕ := 0x2
def PERM_EXEC : ℕ := 0x1

inductive Vm where
  | hlos
  | trustedVm
  | oemvm
deriving DecidableEq

def Vm.vmid : Vm → ℕ
  | .hlos => VMID_HLOS
  | .trustedVm => VMID_TVM
  | .oemvm => VMID_OEMVM

def pdataArray : List (ℕ × Bool) :=
  [(VMID_TVM, true), (VMID_OEMVM, true), (VMID_HLOS, false), (0x8, false), (0x9, false), (0xa, false),
    (0xb, false), (0xd, false), (0x11, false), (0x1a, false), (0x1d, false), (0x22, false), (0x24, false),
    (0x2a, false), (0x12, false)]

def memBufVms (vmid : ℕ) : Option Bool := (pdataArray.find? fun vm => vm.1 = vmid).map Prod.snd

abbrev Acl := List (ℕ × ℕ)

abbrev Handle := Fin MEM_BUF_MEMPARCEL_INVALID

structure Hyp where
  assigned : Acl
  memparcel : Option Handle
deriving DecidableEq

def Hyp.handle (hyp : Hyp) : ℕ := hyp.memparcel.elim MEM_BUF_MEMPARCEL_INVALID Fin.val

namespace Vm

variable (vm : Vm)

def own : Acl := [(vm.vmid, PERM_READ ||| PERM_WRITE ||| PERM_EXEC)]

def memBufVmUsesHypAssign : Bool := vm.vmid = VMID_HLOS

def memBufVmUsesGunyah : List ℕ → ℤ
  | [] =>
    match memBufVms vm.vmid with
    | none => 0
    | some api => if api then 1 else 0
  | vmid :: vmids =>
    match memBufVms vmid with
    | none => -EINVAL
    | some api => if api then 1 else memBufVmUsesGunyah vmids

def memBufHypAssignTable (hyp : Hyp) (dest : Acl) (errno : ℕ) : ℤ × Hyp :=
  if vm.memBufVmUsesHypAssign = false then (0, hyp)
  else (-errno, if errno = 0 then { hyp with assigned := dest } else hyp)

structure AssignEnv where
  hypAssign : ℕ
  desc : ℕ
  create : ℕ
  handle : Handle
  recover : ℕ

structure Assigned where
  ret : ℤ
  hyp : Hyp
  memparcelHdl : ℕ

/-- `mem_buf_assign_mem_gunyah`. In a VM without `hyp_assign` it is the memparcel that gives the
access. -/
def memBufAssignMemGunyah (acl : Acl) (hyp : Hyp) (env : AssignEnv) : Assigned :=
  let ret := vm.memBufVmUsesGunyah (acl.map Prod.fst)
  if ret ≤ 0 then ⟨ret, hyp, MEM_BUF_MEMPARCEL_INVALID⟩
  else if env.desc ≠ 0 then ⟨-env.desc, hyp, MEM_BUF_MEMPARCEL_INVALID⟩
  else if env.create ≠ 0 then ⟨-env.create, hyp, MEM_BUF_MEMPARCEL_INVALID⟩
  else
    ⟨0, ⟨if vm.memBufVmUsesHypAssign then hyp.assigned else acl, some env.handle⟩, env.handle⟩

def memBufAssignMem (acl : Acl) (hyp : Hyp) (env : AssignEnv) : Assigned :=
  if acl = [] then ⟨-EINVAL, hyp, MEM_BUF_MEMPARCEL_INVALID⟩
  else
    let first := vm.memBufHypAssignTable hyp acl env.hypAssign
    if first.1 ≠ 0 then ⟨first.1, first.2, MEM_BUF_MEMPARCEL_INVALID⟩
    else
      let gunyah := vm.memBufAssignMemGunyah acl first.2 env
      if gunyah.ret ≠ 0 then
        let back := vm.memBufHypAssignTable gunyah.hyp vm.own env.recover
        ⟨if back.1 < 0 then -EADDRNOTAVAIL else gunyah.ret, back.2, gunyah.memparcelHdl⟩
      else gunyah

structure UnassignEnv where
  reclaim : ℕ
  hypAssign : ℕ

/-- `mem_buf_unassign_mem_gunyah`. Only a live memparcel can be taken back. -/
def memBufUnassignMemGunyah (hdl : ℕ) (hyp : Hyp) (env : UnassignEnv) : ℤ × Hyp :=
  if hyp.memparcel.map Fin.val ≠ some hdl then (-EINVAL, hyp)
  else if env.reclaim ≠ 0 then (-env.reclaim, hyp)
  else (0, ⟨if vm.memBufVmUsesHypAssign then hyp.assigned else vm.own, none⟩)

def memBufUnassignMem (src : Acl) (hdl : ℕ) (hyp : Hyp) (env : UnassignEnv) : ℤ × Hyp :=
  if src = [] then (-EINVAL, hyp)
  else if hdl ≠ MEM_BUF_MEMPARCEL_INVALID then
    let gunyah := vm.memBufUnassignMemGunyah hdl hyp env
    if gunyah.1 ≠ 0 then gunyah else vm.memBufHypAssignTable gunyah.2 vm.own env.hypAssign
  else vm.memBufHypAssignTable hyp vm.own env.hypAssign

/-- The memory does not stay assigned after its memparcel is gone. -/
def UnassignEnv.Whole (env : UnassignEnv) : Prop :=
  vm.memBufVmUsesHypAssign = false ∨ env.reclaim ≠ 0 ∨ env.hypAssign = 0

instance (env : UnassignEnv) : Decidable (env.Whole vm) :=
  inferInstanceAs (Decidable (vm.memBufVmUsesHypAssign = false ∨ env.reclaim ≠ 0 ∨ env.hypAssign = 0))

variable {vm} {hyp : Hyp} {acl dest : Acl} {errno hdl : ℕ} {env : AssignEnv}

theorem neg_EINVAL : -EINVAL < 0 := by decide

theorem hypAssignTable_spec : let r := vm.memBufHypAssignTable hyp dest errno
    (r.1 = 0 → r.2 = if vm.memBufVmUsesHypAssign then { hyp with assigned := dest } else hyp) ∧
      (r.1 ≠ 0 → r.1 < 0 ∧ r.2 = hyp ∧ vm.memBufVmUsesHypAssign = true ∧ errno ≠ 0) := by
  fun_cases memBufHypAssignTable vm hyp dest errno with
  | case1 huses => simp [huses]
  | case2 huses =>
    rw [Bool.not_eq_false] at huses
    by_cases herr : errno = 0
    · simp [herr, huses]
    · refine ⟨fun h => ?_, fun _ => ⟨?_, if_neg herr, huses, herr⟩⟩ <;> dsimp only at * <;> omega

theorem usesGunyah_ne_zero (h : vm.memBufVmUsesHypAssign = false) (vmids : List ℕ) :
    vm.memBufVmUsesGunyah vmids ≠ 0 := by
  induction vmids with
  | nil => cases vm <;> revert h <;> decide
  | cons vmid vmids ih =>
    unfold memBufVmUsesGunyah
    split
    · decide
    · split
      · decide
      · exact ih

theorem assignMemGunyah_spec : let r := vm.memBufAssignMemGunyah acl hyp env
    (r.ret = 0 → hyp.memparcel = none → r.memparcelHdl = r.hyp.handle ∧
      r.hyp.assigned = (if vm.memBufVmUsesHypAssign then hyp.assigned else acl) ∧
      (vm.memBufVmUsesHypAssign = false → r.hyp.memparcel ≠ none)) ∧
    (r.ret ≠ 0 → r.ret < 0 ∧ r.hyp = hyp) := by
  fun_cases memBufAssignMemGunyah vm acl hyp env with
  | case1 ret hgun =>
    refine ⟨fun h hnone => ?_, fun h => ⟨by dsimp only at *; omega, rfl⟩⟩
    have huses : vm.memBufVmUsesHypAssign = true := by
      by_contra hnot
      exact usesGunyah_ne_zero (by simpa using hnot) _ h
    refine ⟨?_, (if_pos huses).symm, fun hnot => absurd (huses.symm.trans hnot) (by decide)⟩
    rw [Hyp.handle, hnone]
    rfl
  | case2 | case3 =>
    dsimp only
    exact ⟨by omega, fun _ => ⟨by omega, rfl⟩⟩
  | case4 => exact ⟨fun _ _ => ⟨rfl, rfl, fun _ => nofun⟩, absurd rfl⟩

/-- Memory of the current VM that cannot be assigned stays as it is, unless the error says that it
did not come back. -/
theorem assignMem_spec : let r := vm.memBufAssignMem acl hyp env
    (r.ret = 0 → hyp.memparcel = none → r.memparcelHdl = r.hyp.handle ∧ r.hyp.assigned = acl ∧
      (vm.memBufVmUsesHypAssign = false → r.hyp.memparcel ≠ none)) ∧
    (r.ret ≠ 0 → r.ret < 0 ∧ (hyp = ⟨vm.own, none⟩ → r.hyp = hyp ∨ r.ret = -EADDRNOTAVAIL)) := by
  fun_cases memBufAssignMem vm acl hyp env with
  | case1 => exact ⟨nofun, fun _ => ⟨neg_EINVAL, fun _ => .inl rfl⟩⟩
  | case2 _ first hfst =>
    obtain ⟨hneg, hsame, -⟩ := hypAssignTable_spec.2 hfst
    exact ⟨fun h => absurd h hfst, fun _ => ⟨hneg, fun _ => .inl hsame⟩⟩
  | case3 _ first hfst gunyah hgun back =>
    obtain ⟨hneg, hsame⟩ := assignMemGunyah_spec.2 hgun
    dsimp only
    by_cases hback : back.1 = 0
    · rw [if_neg (by omega)]
      refine ⟨fun h => absurd h hgun, fun _ => ⟨hneg, fun hown => .inl ?_⟩⟩
      rw [hypAssignTable_spec.1 hback, hsame, hypAssignTable_spec.1 (not_not.mp hfst), hown]
      cases vm.memBufVmUsesHypAssign <;> rfl
    · -- an error is never turned into 0
      rw [if_pos (hypAssignTable_spec.2 hback).1]
      exact ⟨nofun, fun _ => ⟨by decide, fun _ => .inr rfl⟩⟩
  | case4 _ first hfst gunyah hgun =>
    refine ⟨fun h hnone => ?_, fun h => absurd h hgun⟩
    -- after the first step the assignment is there, unless the memparcel is to make it
    have hfst := hypAssignTable_spec.1 (not_not.mp hfst)
    obtain ⟨hhandle, hasg, hpar⟩ := assignMemGunyah_spec.1 h (by rw [hfst]; split_ifs <;> exact hnone)
    refine ⟨hhandle, hasg.trans ?_, hpar⟩
    rw [hfst]
    cases vm.memBufVmUsesHypAssign <;> rfl

theorem handle_eq_invalid_iff : hyp.handle = MEM_BUF_MEMPARCEL_INVALID ↔ hyp.memparcel = none := by
  unfold Hyp.handle
  cases hyp.memparcel with
  | none => simp
  | some hdl => simpa using Nat.ne_of_lt hdl.isLt

theorem hypAssignTable_own (hnone : hyp.memparcel = none)
    (hasg : vm.memBufVmUsesHypAssign = false → hyp.assigned = vm.own)
    (h : (vm.memBufHypAssignTable hyp vm.own errno).1 = 0) :
    (vm.memBufHypAssignTable hyp vm.own errno).2 = ⟨vm.own, none⟩ := by
  rw [hypAssignTable_spec.1 h, ← hnone]
  cases huses : vm.memBufVmUsesHypAssign with
  | false => rw [if_neg Bool.false_ne_true, ← hasg huses]
  | true => rfl

theorem unassignMemGunyah_spec {env : UnassignEnv} : let r := vm.memBufUnassignMemGunyah hdl hyp env
    (r.1 = 0 → env.reclaim = 0 ∧ r.2 = ⟨if vm.memBufVmUsesHypAssign then hyp.assigned else vm.own, none⟩) ∧
      (r.1 ≠ 0 → r.1 < 0 ∧ r.2 = hyp) := by
  fun_cases memBufUnassignMemGunyah vm hdl hyp env with
  | case1 => exact ⟨nofun, fun _ => ⟨neg_EINVAL, rfl⟩⟩
  | case2 =>
    exact ⟨by omega, fun _ => ⟨by omega, rfl⟩⟩
  | case3 _ hreclaim => exact ⟨fun _ => ⟨not_not.mp hreclaim, rfl⟩, absurd rfl⟩

/-- Memory that cannot be taken back stays as it is, unless its memparcel is gone already. -/
theorem unassignMem_spec {env : UnassignEnv} : let r := vm.memBufUnassignMem acl hdl hyp env
    (r.1 = 0 → (hdl = MEM_BUF_MEMPARCEL_INVALID → hyp.memparcel = none) →
      (vm.memBufVmUsesHypAssign = false → hyp.memparcel ≠ none) → r.2 = ⟨vm.own, none⟩) ∧
    (r.1 ≠ 0 → r.1 < 0 ∧ (hdl = MEM_BUF_MEMPARCEL_INVALID ∨ env.Whole vm → r.2 = hyp)) := by
  fun_cases memBufUnassignMem vm acl hdl hyp env with
  | case1 => exact ⟨nofun, fun _ => ⟨neg_EINVAL, fun _ => rfl⟩⟩
  | case2 _ _ gunyah hgun =>
    obtain ⟨hneg, hsame⟩ := unassignMemGunyah_spec.2 hgun
    exact ⟨fun h => absurd h hgun, fun _ => ⟨hneg, fun _ => hsame⟩⟩
  | case3 _ hbad gunyah hgun =>
    obtain ⟨hreclaim, hrest⟩ := unassignMemGunyah_spec.1 (not_not.mp hgun)
    refine ⟨fun h _ _ => hypAssignTable_own (by rw [hrest]) (fun huses => ?_) h, fun h => ?_⟩
    · rw [hrest]
      exact if_neg (by simp [huses])
    · -- the memparcel is gone, so the rest does not fail
      obtain ⟨hneg, -, huses, herr⟩ := hypAssignTable_spec.2 h
      refine ⟨hneg, fun hwh => ?_⟩
      rcases hwh.resolve_left hbad with hnot | hfail | hok
      · exact absurd (huses.symm.trans hnot) (by decide)
      · exact absurd hreclaim hfail
      · exact absurd hok herr
  | case4 _ hhdl =>
    refine ⟨fun h hbad hpar => ?_, fun h => ?_⟩
    · have hnone := hbad (not_not.mp hhdl)
      exact hypAssignTable_own hnone (fun huses => absurd hnone (hpar huses)) h
    · obtain ⟨hneg, hsame, -⟩ := hypAssignTable_spec.2 h
      exact ⟨hneg, fun _ => hsame⟩

end Vm

end VendorKernel.MemBuf
