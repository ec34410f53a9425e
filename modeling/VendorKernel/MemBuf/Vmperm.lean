import VendorKernel.Lib.Machine
import VendorKernel.MemBuf.Assign

/-! The ownership record of a dma-buf (`mem_buf_dma_buf.c`): lending, sharing and taking back, over
whole sequences of calls. -/
namespace VendorKernel.MemBuf

open Machine Vm List Option

def ENOMEM : ℤ := 12

inductive TransType where
  | lend
  | share
deriving DecidableEq

structure Vmperm where
  staticVm : Bool
  lendshare : Bool
  accept : Bool
  err : Bool
  zombie : Bool
  acl : Acl
  currentVmPerms : ℕ
  mapcount : ℕ
  memparcelHdl : ℕ
  dtor : Option ℤ

structure DmaBuf where
  vmperm : Vmperm
  hyp : Hyp

structure LendEnv where
  alloc : ℕ
  resize : ℕ
  assign : AssignEnv
  xaInsert : ℕ
  unassign : UnassignEnv

namespace Vm

variable (vm : Vm)

def memBufVmpermUpdateState (vmperm : Vmperm) (acl : Acl) : Vmperm :=
  { vmperm with
    acl := acl
    currentVmPerms := acl.foldl (fun perms entry => if entry.1 = vm.vmid then entry.2 else perms) 0 }

def memBufVmpermAllocFlags (staticVm accept : Bool) (acl : Acl) (hdl : ℕ) : Vmperm :=
  vm.memBufVmpermUpdateState
    { staticVm := staticVm, lendshare := false, accept := accept, err := false, zombie := false, acl := [],
      currentVmPerms := 0, mapcount := 0, memparcelHdl := hdl, dtor := none } acl

def memBufVmpermAllocStaticvm (acl : Acl) : Vmperm :=
  vm.memBufVmpermAllocFlags true false acl MEM_BUF_MEMPARCEL_INVALID

def memBufVmpermAlloc : Vmperm := vm.memBufVmpermAllocFlags false false vm.own MEM_BUF_MEMPARCEL_INVALID

def vmpermReclaim (s : DmaBuf) (env : UnassignEnv) : ℤ × DmaBuf :=
  let unassigned := vm.memBufUnassignMem s.vmperm.acl s.vmperm.memparcelHdl s.hyp env
  if unassigned.1 ≠ 0 then (unassigned.1, { s with hyp := unassigned.2 })
  else
    (0, { vmperm :=
            { vm.memBufVmpermUpdateState s.vmperm vm.own with
              lendshare := false, memparcelHdl := MEM_BUF_MEMPARCEL_INVALID }
          hyp := unassigned.2 })

/-- `mem_buf_vmperm_relinquish`: `unmap` is the result of `mem_buf_unmap_mem_s2`. The memparcel is one
that another VM has made. -/
def memBufVmpermRelinquish (s : DmaBuf) (unmap : ℕ) : ℤ × DmaBuf :=
  if unmap ≠ 0 then (-unmap, s)
  else
    (0, { s with vmperm := { s.vmperm with accept := false, memparcelHdl := MEM_BUF_MEMPARCEL_INVALID } })

/-- The middle of `mem_buf_vmperm_try_reclaim`, with the value of `ret` from the destructor. -/
def reclaimByFlags (s : DmaBuf) (ret : ℤ) (env : UnassignEnv) (unmap : ℕ) : ℤ × DmaBuf :=
  if s.vmperm.lendshare then vm.vmpermReclaim s env
  else if s.vmperm.accept then memBufVmpermRelinquish s unmap
  else (ret, s)

def memBufVmpermTryReclaim (s : DmaBuf) (fromNotifier : Bool) (env : UnassignEnv) (unmap : ℕ) : ℤ × DmaBuf :=
  if fromNotifier = true ∧ s.vmperm.zombie = false then (0, s)
  else
    -- the destructor is called once, and its error is ignored if there is something to take back
    let result := vm.reclaimByFlags { s with vmperm := { s.vmperm with dtor := none } }
      (s.vmperm.dtor.getD 0) env unmap
    if result.1 ≠ 0 then
      (result.1, { result.2 with vmperm := { result.2.vmperm with zombie := true } })
    else result

def validateLendVmids (acl : Acl) (op : TransType) : ℤ :=
  let found := acl.any fun entry => entry.1 = vm.vmid
  if found = true ∧ op = .lend then -EINVAL
  else if found = false ∧ op = .share then -EINVAL
  else 0

def validateLendMapcount (vmperm : Vmperm) (acl : Acl) : Bool :=
  let perms := PERM_READ ||| PERM_WRITE
  vmperm.mapcount = 0 ∨ ∃ entry ∈ acl, entry.1 = vm.vmid ∧ entry.2 &&& perms = perms

def memBufLendInternal (s : DmaBuf) (acl : Acl) (op : TransType) (env : LendEnv) : ℤ × DmaBuf :=
  if acl = [] then (-EINVAL, s)
  else if vm.validateLendVmids acl op ≠ 0 then (vm.validateLendVmids acl op, s)
  else if s.vmperm.err = true ∨ s.vmperm.staticVm = true ∨ s.vmperm.lendshare = true ∨
      s.vmperm.accept = true then (-EINVAL, s)
  else if vm.validateLendMapcount s.vmperm acl = false then (-EINVAL, s)
  else if env.resize ≠ 0 then (-env.resize, s)
  else
    let assigned := vm.memBufAssignMem acl s.hyp env.assign
    if assigned.ret ≠ 0 then
      (assigned.ret,
        { vmperm := if assigned.ret = -EADDRNOTAVAIL then { s.vmperm with err := true } else s.vmperm
          hyp := assigned.hyp })
    else
      let lent : DmaBuf :=
        { vmperm :=
            { vm.memBufVmpermUpdateState s.vmperm acl with lendshare := true, memparcelHdl := assigned.memparcelHdl }
          hyp := assigned.hyp }
      if lent.vmperm.memparcelHdl ≠ MEM_BUF_MEMPARCEL_INVALID ∧ env.xaInsert ≠ 0 then
        (-env.xaInsert, (vm.memBufVmpermTryReclaim lent false env.unassign 0).2)
      else (0, lent)

def memBufLend (s : DmaBuf) (acl : Acl) (env : LendEnv) : ℤ × DmaBuf :=
  vm.memBufLendInternal s acl .lend env

def memBufShare (s : DmaBuf) (acl : Acl) (env : LendEnv) : ℤ × DmaBuf :=
  if acl.any fun entry => entry.1 = vm.vmid then vm.memBufLendInternal s acl .share env
  else if env.alloc ≠ 0 then (-ENOMEM, s)
  else vm.memBufLendInternal s (acl ++ vm.own) .share env

def memBufReclaim (s : DmaBuf) (env : UnassignEnv) : ℤ × DmaBuf :=
  if s.vmperm.staticVm then (-EINVAL, s)
  else if s.vmperm.lendshare = false then (-EINVAL, s)
  else if s.vmperm.accept then (-EINVAL, s)
  else vm.vmpermReclaim s env

inductive Op where
  | lend (acl : Acl) (env : LendEnv)
  | share (acl : Acl) (env : LendEnv)
  | reclaim (env : UnassignEnv)
  | tryReclaim (fromNotifier : Bool) (env : UnassignEnv) (unmap : ℕ)
  | setDestructor (dtor : ℤ)
  | pin
  | unpin

def step (s : DmaBuf) : Op → Option DmaBuf
  | .lend acl env => some (vm.memBufLend s acl env).2
  | .share acl env => some (vm.memBufShare s acl env).2
  | .reclaim env => some (vm.memBufReclaim s env).2
  | .tryReclaim fromNotifier env unmap => some (vm.memBufVmpermTryReclaim s fromNotifier env unmap).2
  | .setDestructor dtor => some { s with vmperm := { s.vmperm with dtor := some dtor } }
  | .pin => some { s with vmperm := { s.vmperm with mapcount := s.vmperm.mapcount + 1 } }
  | .unpin => some { s with vmperm := { s.vmperm with mapcount := s.vmperm.mapcount - 1 } }

def Whole (s : DmaBuf) : Op → Prop
  | .lend _ env => env.xaInsert = 0 ∨ env.unassign.Whole vm
  | .share _ env => env.xaInsert = 0 ∨ env.unassign.Whole vm
  | .reclaim env => s.vmperm.memparcelHdl = MEM_BUF_MEMPARCEL_INVALID ∨ env.Whole vm
  | .tryReclaim _ env _ => s.vmperm.memparcelHdl = MEM_BUF_MEMPARCEL_INVALID ∨ env.Whole vm
  | _ => True

instance (s : DmaBuf) (op : Op) : Decidable (vm.Whole s op) := by
  cases op <;> unfold Whole <;> infer_instance

/-- A new dma-buf: memory of the current VM, or memory that is assigned for good. -/
inductive Start : DmaBuf → Prop
  | alloc : Start ⟨vm.memBufVmpermAlloc, ⟨vm.own, none⟩⟩
  | allocStaticvm (acl : Acl) : Start ⟨vm.memBufVmpermAllocStaticvm acl, ⟨acl, none⟩⟩

/-- The record says what the hypervisor holds: the access list, whether the memory is lent or shared, and the
handle. -/
structure Describes (s : DmaBuf) : Prop where
  acl_eq : s.vmperm.acl = s.hyp.assigned
  handle_eq : s.vmperm.memparcelHdl = s.hyp.handle
  home : s.vmperm.lendshare = false → s.hyp.memparcel = none ∧ (s.vmperm.staticVm = false → s.hyp.assigned = vm.own)

structure Recorded (s : DmaBuf) : Prop where
  not_accept : s.vmperm.accept = false
  not_static : s.vmperm.lendshare = true → s.vmperm.staticVm = false
  describes : s.vmperm.err = false → vm.Describes s
  parcel : s.vmperm.err = false → s.vmperm.lendshare = true → vm.memBufVmUsesHypAssign = false →
    s.hyp.memparcel ≠ none

variable {vm} {s s' : DmaBuf} {acl : Acl} {env : UnassignEnv}

theorem Start.recorded (h : vm.Start s) : vm.Recorded s := by
  cases h with
  | alloc => exact ⟨rfl, nofun, fun _ => ⟨rfl, rfl, fun _ => ⟨rfl, fun _ => rfl⟩⟩, fun _ => nofun⟩
  | allocStaticvm acl => exact ⟨rfl, nofun, fun _ => ⟨rfl, rfl, fun _ => ⟨rfl, nofun⟩⟩, fun _ => nofun⟩

section
variable (h : vm.Recorded s)
include h

theorem Recorded.setRest (zombie : Bool) (mapcount : ℕ) (dtor : Option ℤ) :
    vm.Recorded
      { s with vmperm := { s.vmperm with zombie := zombie, mapcount := mapcount, dtor := dtor } } :=
  ⟨h.not_accept, h.not_static,
    fun herr => ⟨(h.describes herr).acl_eq, (h.describes herr).handle_eq, (h.describes herr).home⟩, h.parcel⟩

section
variable (hwh : s.vmperm.memparcelHdl = MEM_BUF_MEMPARCEL_INVALID ∨ env.Whole vm)
include hwh

theorem Recorded.vmpermReclaim (hlent : s.vmperm.lendshare = true) : vm.Recorded (vm.vmpermReclaim s env).2 := by
  fun_cases Vm.vmpermReclaim vm s env with
  | case1 unassigned hfail =>
    rw [show unassigned.2 = s.hyp from (unassignMem_spec.2 hfail).2 hwh]
    exact h
  | case2 unassigned hfail =>
    have hdone : s.vmperm.err = false → unassigned.2 = ⟨vm.own, none⟩ := by
      intro herr
      have hhdl := (h.describes herr).handle_eq
      exact unassignMem_spec.1 (not_not.mp hfail) (hhdl ▸ handle_eq_invalid_iff.mp) (h.parcel herr hlent)
    refine ⟨h.not_accept, nofun, fun herr => ?_, fun _ => nofun⟩
    rw [hdone herr]
    exact ⟨rfl, rfl, fun _ => ⟨rfl, fun _ => rfl⟩⟩

theorem Recorded.reclaimByFlags (ret : ℤ) (unmap : ℕ) : vm.Recorded (vm.reclaimByFlags s ret env unmap).2 := by
  fun_cases Vm.reclaimByFlags vm s ret env unmap with
  | case1 hlent => exact h.vmpermReclaim hwh hlent
  | case2 _ hacc => exact absurd hacc (by simp [h.not_accept])
  | case3 => exact h

theorem Recorded.tryReclaim (fromNotifier : Bool) (unmap : ℕ) :
    vm.Recorded (vm.memBufVmpermTryReclaim s fromNotifier env unmap).2 := by
  have hdtor := h.setRest s.vmperm.zombie s.vmperm.mapcount none
  have hresult := hdtor.reclaimByFlags hwh (s.vmperm.dtor.getD 0) unmap
  fun_cases memBufVmpermTryReclaim vm s fromNotifier env unmap with
  | case1 => exact h
  | case2 => exact hresult.setRest true _ _
  | case3 => exact hresult

end

section
variable
  (hfg : ¬(s.vmperm.err = true ∨ s.vmperm.staticVm = true ∨ s.vmperm.lendshare = true ∨ s.vmperm.accept = true))
include hfg

theorem Recorded.atHome : s.vmperm.staticVm = false ∧ s.hyp.memparcel = none ∧ s.hyp = ⟨vm.own, none⟩ := by
  obtain ⟨herr, hstc, hlent, -⟩ : s.vmperm.err = false ∧ s.vmperm.staticVm = false ∧
      s.vmperm.lendshare = false ∧ s.vmperm.accept = false := by simpa [not_or] using hfg
  obtain ⟨hnone, hown⟩ := (h.describes herr).home hlent
  exact ⟨hstc, hnone, by rw [← hown hstc, ← hnone]⟩

theorem Recorded.lent {env : AssignEnv} (hret : ¬(vm.memBufAssignMem acl s.hyp env).ret ≠ 0) :
    vm.Recorded
      { vmperm :=
          { vm.memBufVmpermUpdateState s.vmperm acl with
            lendshare := true, memparcelHdl := (vm.memBufAssignMem acl s.hyp env).memparcelHdl }
        hyp := (vm.memBufAssignMem acl s.hyp env).hyp } := by
  obtain ⟨hstc, hnone, -⟩ := h.atHome hfg
  obtain ⟨hhdl, hasg, hpar⟩ := assignMem_spec.1 (not_not.mp hret) hnone
  exact ⟨h.not_accept, fun _ => hstc, fun _ => ⟨hasg.symm, hhdl, nofun⟩, fun _ _ => hpar⟩

end

theorem Recorded.lendInternal (acl : Acl) (op : TransType) {env : LendEnv}
    (hwh : env.xaInsert = 0 ∨ env.unassign.Whole vm) :
    vm.Recorded (vm.memBufLendInternal s acl op env).2 := by
  fun_cases memBufLendInternal vm s acl op env with
  | case1 | case2 | case3 | case4 | case5 => exact h
  | case6 _ _ hfg _ _ assigned hret =>
    obtain ⟨hstc, hnone, hhyp⟩ := h.atHome hfg
    by_cases hlost : assigned.ret = -EADDRNOTAVAIL
    · rw [if_pos hlost]
      exact ⟨h.not_accept, h.not_static, nofun, nofun⟩
    · rw [if_neg hlost, show assigned.hyp = s.hyp from ((assignMem_spec.2 hret).2 hhyp).resolve_right hlost]
      exact h
  | case7 _ _ hfg _ _ assigned hret lent hxa =>
    exact (h.lent hfg hret).tryReclaim (.inr (hwh.resolve_left hxa.2)) false 0
  | case8 _ _ hfg _ _ assigned hret => exact h.lent hfg hret

/-- The record follows the hypervisor. -/
theorem Recorded.step {op : Op} (hok : vm.Whole s op) (hs : vm.step s op = some s') : vm.Recorded s' := by
  cases op with
  | lend acl env =>
    cases hs
    exact h.lendInternal acl .lend hok
  | share acl env =>
    cases hs
    fun_cases memBufShare vm s acl env with
    | case2 => exact h
    | _ => exact h.lendInternal _ .share hok
  | reclaim env =>
    cases hs
    fun_cases memBufReclaim vm s env with
    | case4 _ hlent => exact h.vmpermReclaim hok (by simpa using hlent)
    | _ => exact h
  | tryReclaim fromNotifier env unmap =>
    cases hs
    exact h.tryReclaim hok fromNotifier unmap
  | setDestructor _ | pin | unpin =>
    cases hs
    exact h.setRest _ _ _

end

/-- After every sequence of calls in which no memory stays assigned without its memparcel, the record
says what the hypervisor holds, unless the error flag is set. -/
theorem vmperm_describes_hyp (vm : Vm) (start s : DmaBuf) (ops : List Op) (hstart : vm.Start start)
    (hok : Meets vm.step vm.Whole start ops) (h : run vm.step start ops = some s)
    (herr : s.vmperm.err = false) : vm.Describes s := by
  have hrecorded : vm.Recorded s :=
    run_inv (fun _ _ _ hinv hop hstep => hinv.step hop hstep) hstart.recorded hok h
  exact hrecorded.describes herr

def lendOk : LendEnv := ⟨0, 0, ⟨0, 0, 0, ⟨7, by decide⟩, 0⟩, 0, ⟨0, 0⟩⟩

/-- The trusted VM still has the memory when it is to be taken back for the first time. -/
theorem vmperm_describes_hyp_retry : ∃ s, run Vm.hlos.step ⟨Vm.hlos.memBufVmpermAlloc, ⟨Vm.hlos.own, none⟩⟩
      [.lend [(VMID_TVM, 6)] lendOk, .reclaim ⟨16, 0⟩, .reclaim ⟨0, 0⟩] = some s ∧
    s.vmperm.err = false ∧ Vm.hlos.Describes s := by
  have hrun : (run Vm.hlos.step ⟨Vm.hlos.memBufVmpermAlloc, ⟨Vm.hlos.own, none⟩⟩
      [.lend [(VMID_TVM, 6)] lendOk, .reclaim ⟨16, 0⟩, .reclaim ⟨0, 0⟩]).map (fun s => s.vmperm.err) =
        some false := by
    decide
  obtain ⟨s, hs, herr⟩ := map_eq_some_iff.mp hrun
  exact ⟨s, hs, herr, vmperm_describes_hyp .hlos _ s _ .alloc (by decide) hs herr⟩

/-- The memparcel is taken back and the memory is not: the record keeps the handle of a memparcel that
is gone, the error flag is not set, and trying again fails at that handle. -/
theorem vmperm_stale_handle :
    (run Vm.hlos.step ⟨Vm.hlos.memBufVmpermAlloc, ⟨Vm.hlos.own, none⟩⟩
        [.lend [(VMID_TVM, 6)] lendOk, .reclaim ⟨0, 5⟩, .reclaim ⟨0, 0⟩]).map
      (fun s => (s.vmperm.err, s.vmperm.lendshare, s.vmperm.memparcelHdl, s.hyp)) =
    some (false, true, 7, ⟨[(VMID_TVM, 6)], none⟩) := by
  decide

/-! ### Release -/

/-- What a release returns and leaves behind, with the result of the destructor in the record. -/
structure Released (vm : Vm) (s : DmaBuf) (env : UnassignEnv) (unmap : ℕ) (r : ℤ × DmaBuf) : Prop where
  ret_eq : r.1 = 0 ↔ r.2.vmperm.lendshare = false ∧ r.2.vmperm.accept = false
  zombie : r.2.vmperm.zombie = true ↔ s.vmperm.zombie = true ∨ r.1 ≠ 0
  ignored : r.1 = (vm.memBufVmpermTryReclaim { s with vmperm := { s.vmperm with dtor := none } } false env unmap).1

/-- The error of a destructor is returned if there is nothing to take back, and only then. -/
theorem try_reclaim_release_iff (vm : Vm) (s : DmaBuf) (env : UnassignEnv) (unmap : ℕ) :
    vm.Released s env unmap (vm.memBufVmpermTryReclaim s false env unmap) ↔
      (s.vmperm.lendshare = true ∨ s.vmperm.accept = true ∨ s.vmperm.dtor.getD 0 = 0) ∧
        (s.vmperm.lendshare = true → s.vmperm.accept = true →
          (vm.memBufUnassignMem s.vmperm.acl s.vmperm.memparcelHdl s.hyp env).1 ≠ 0) := by
  have hspl : vm.Released s env unmap (vm.memBufVmpermTryReclaim s false env unmap) ↔ _ ∧ _ ∧ _ :=
    ⟨fun h => ⟨h.1, h.2, h.3⟩, fun h => ⟨h.1, h.2.1, h.2.2⟩⟩
  rw [hspl]
  simp only [memBufVmpermTryReclaim, Bool.false_eq_true, false_and, if_false, reclaimByFlags, getD_none]
  cases hlent : s.vmperm.lendshare with
  | true =>
    simp only [vmpermReclaim, if_true]
    by_cases hret : (vm.memBufUnassignMem s.vmperm.acl s.vmperm.memparcelHdl s.hyp env).1 = 0
    · simp [hret, memBufVmpermUpdateState]
    · simp [hret]
  | false =>
    cases hacc : s.vmperm.accept with
    | true =>
      by_cases hunmap : unmap = 0 <;> simp [memBufVmpermRelinquish, hunmap]
    | false =>
      by_cases hdtor : s.vmperm.dtor.getD 0 = 0 <;> simp [hdtor]

/-- A buffer of the current VM whose destructor fails is a zombie. -/
theorem try_reclaim_destructor_error :
    (Vm.hlos.memBufVmpermTryReclaim
      ⟨{ Vm.hlos.memBufVmpermAlloc with dtor := some (-5) }, ⟨Vm.hlos.own, none⟩⟩ false ⟨0, 0⟩ 0).map
        id (fun s => (s.vmperm.lendshare, s.vmperm.accept, s.vmperm.zombie)) = (-5, false, false, true) := by
  decide

/-! ### Pinned buffers -/

def access (perms : ℕ) : Bool := perms &&& (PERM_READ ||| PERM_WRITE) = PERM_READ ||| PERM_WRITE

def lastEntry (vm : Vm) (acl : Acl) : Option (ℕ × ℕ) := acl.reverse.find? fun entry => entry.1 = vm.vmid

theorem currentVmPerms_updateState (vmperm : Vmperm) (acl : Acl) :
    (vm.memBufVmpermUpdateState vmperm acl).currentVmPerms = ((vm.lastEntry acl).map Prod.snd).getD 0 := by
  change acl.foldl (fun perms entry => if entry.1 = vm.vmid then entry.2 else perms) 0 = _
  rw [lastEntry, foldl_eq_foldr_reverse]
  induction acl.reverse with
  | nil => rfl
  | cons entry acl ih => by_cases hvm : entry.1 = vm.vmid <;> simp [hvm, ih]

theorem lendInternal_ok {op : TransType} {env : LendEnv} (h : (vm.memBufLendInternal s acl op env).1 = 0) :
    vm.validateLendVmids acl op = 0 ∧ vm.validateLendMapcount s.vmperm acl = true ∧
      (vm.memBufLendInternal s acl op env).2.vmperm.currentVmPerms = ((vm.lastEntry acl).map Prod.snd).getD 0 := by
  revert h
  fun_cases memBufLendInternal vm s acl op env with
  | case2 _ hvmids => exact fun h => absurd h hvmids
  | case5 _ _ _ _ hresize => exact fun h => absurd h (by simpa using hresize)
  | case6 _ _ _ _ _ assigned hret => exact fun h => absurd h hret
  | case7 _ _ _ _ _ _ _ _ hxa => exact fun h => absurd h (by simpa using hxa.2)
  | case8 _ hvmids _ hmap =>
    exact fun _ => ⟨not_not.mp hvmids, by simpa using hmap, currentVmPerms_updateState s.vmperm acl⟩
  | _ => exact fun h => absurd h (Int.ne_of_lt neg_EINVAL)

/-- A pinned buffer cannot be lent; one that is shared keeps its access if and only if the last entry for the
current VM, should there be one, grants it. -/
theorem pinned_access_iff (vm : Vm) (s : DmaBuf) (acl : Acl) (env : LendEnv) (hpin : s.vmperm.mapcount ≠ 0) :
    (vm.memBufLend s acl env).1 ≠ 0 ∧ ((vm.memBufShare s acl env).1 = 0 →
      access (vm.memBufShare s acl env).2.vmperm.currentVmPerms = (vm.lastEntry acl).all (access ·.2)) := by
  constructor
  · intro h
    obtain ⟨hvmids, hmap, -⟩ := lendInternal_ok h
    obtain ⟨entry, hmem, hvm, -⟩ := (of_decide_eq_true hmap).resolve_left hpin
    have hfd : (acl.any fun entry => entry.1 = vm.vmid) = true :=
      any_eq_true.mpr ⟨entry, hmem, decide_eq_true hvm⟩
    rw [validateLendVmids, hfd] at hvmids
    exact absurd hvmids (by decide)
  · fun_cases memBufShare vm s acl env with
    | case1 hfd =>
      intro h
      rw [(lendInternal_ok h).2.2, lastEntry]
      cases hlast : acl.reverse.find? fun entry => entry.1 = vm.vmid with
      | none =>
        obtain ⟨entry, hmem, hvm⟩ := any_eq_true.mp hfd
        exact absurd hvm (find?_eq_none.mp hlast entry (mem_reverse.mpr hmem))
      | some entry => rfl
    | case2 => exact fun h => absurd h (by decide : -ENOMEM ≠ 0)
    | case3 hfd =>
      intro h
      have hnone : vm.lastEntry acl = none := find?_eq_none.mpr fun entry hmem hvm =>
        hfd (any_eq_true.mpr ⟨entry, mem_reverse.mp hmem, hvm⟩)
      have hown : vm.lastEntry (acl ++ vm.own) = some (vm.vmid, 7) := by
        rw [lastEntry, reverse_append]
        exact find?_cons_of_pos (decide_eq_true rfl)
      rw [(lendInternal_ok h).2.2, hnone, hown]
      exact (by decide : access 7 = true)

def pinned : DmaBuf := ⟨{ hlos.memBufVmpermAlloc with mapcount := 1 }, ⟨hlos.own, none⟩⟩

/-- HLOS shares with another VM. -/
theorem pinned_access_iff_tvm : access (Vm.hlos.memBufShare pinned [(VMID_TVM, 6)] lendOk).2.vmperm.currentVmPerms :=
  (pinned_access_iff .hlos pinned [(VMID_TVM, 6)] lendOk (by decide)).2 (by decide)

/-- The list grants the current VM access, and then only reads. -/
theorem pinned_loses_write :
    (Vm.hlos.memBufShare pinned [(Vm.hlos.vmid, 6), (Vm.hlos.vmid, 4)] lendOk).map id (·.vmperm.currentVmPerms) =
      (0, 4) := by
  decide

end Vm

end VendorKernel.MemBuf
