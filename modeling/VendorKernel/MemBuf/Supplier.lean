import Mathlib.Data.List.Nodup
import VendorKernel.Lib.Machine
import VendorKernel.MemBuf.Assign

/-! The supplier of memory (`mem-buf-gh.c`): HLOS allocates memory for other VMs, and gets it back with
relinquish messages that name an object and a memparcel. -/
namespace VendorKernel.MemBuf

open Machine List Vm Option Function

structure XferMem where
  objId : ℕ
  acl : Acl
  mem : ℕ
  secureAlloc : Bool
  hdl : ℕ
deriving DecidableEq

structure CleanupEnv where
  unassign : Vm.UnassignEnv
  desc : ℕ
  accept : ℕ

structure AllocEnv where
  prep : ℕ
  objId : ℕ
  alloc : ℕ
  mem : ℕ
  assign : Vm.AssignEnv
  resp : ℕ
  cleanup : CleanupEnv

structure Supplier where
  list : List XferMem
  hyp : ℕ → Hyp
  /-- The memparcel with which a VM donates the memory that it was given back to HLOS. -/
  donation : ℕ → Option ℕ
  inUse : List ℕ
  /-- Not in the source: the memory that was given back to the allocator, as the hypervisor held it. -/
  freed : List (ℕ × Hyp)
  /-- Not in the source: the objects that relinquish messages have released, with the senders. -/
  released : List (ℕ × XferMem)

namespace Supplier

def home : Hyp := ⟨hlos.own, none⟩

def init : Supplier := ⟨[], fun _ => home, fun _ => none, [], [], []⟩

def setHyp (s : Supplier) (mem : ℕ) (hyp : Hyp) : Supplier :=
  { s with hyp := update s.hyp mem hyp }

def memBufRmtFreeMem (s : Supplier) (mem : ℕ) : Supplier :=
  { s with inUse := s.inUse.erase mem, freed := s.freed ++ [(mem, s.hyp mem)] }

def donatedBy (s : Supplier) (hdl : ℕ) : Option ℕ := s.inUse.find? fun mem => s.donation mem = some hdl

/-- `mem_buf_map_mem_s2` for a donated memparcel: the memory behind it is that of HLOS again. -/
def memBufMapMemS2 (s : Supplier) (hdl : ℕ) (errno : ℕ) : Option Supplier :=
  match s.donatedBy hdl with
  | none => none
  | some mem =>
    if errno ≠ 0 then none
    else some { s.setHyp mem home with donation := update s.donation mem none }

def memBufCleanupAllocReq (s : Supplier) (xferMem : XferMem) (memparcelHdl : ℕ) (env : CleanupEnv) : Supplier :=
  if xferMem.secureAlloc then s.memBufRmtFreeMem xferMem.mem
  else if memparcelHdl = xferMem.hdl then
    let unassigned := hlos.memBufUnassignMem xferMem.acl xferMem.hdl (s.hyp xferMem.mem) env.unassign
    let s := s.setHyp xferMem.mem unassigned.2
    if unassigned.1 < 0 then s else s.memBufRmtFreeMem xferMem.mem
  else if env.desc ≠ 0 then s
  else
    match s.memBufMapMemS2 memparcelHdl env.accept with
    | none => s
    | some s => s.memBufRmtFreeMem xferMem.mem

/-- `mem_buf_alloc_req_work`. The allocator does not hand out memory that is in use. -/
def memBufAllocReqWork (s : Supplier) (acl : Acl) (env : AllocEnv) : Option Supplier :=
  if acl.length ≠ 1 ∨ env.prep ≠ 0 ∨ env.alloc ≠ 0 then some s
  else if env.mem ∈ s.inUse then none
  else
    let assigned := hlos.memBufAssignMem acl (s.hyp env.mem) env.assign
    let s := { s.setHyp env.mem assigned.hyp with inUse := env.mem :: s.inUse }
    if assigned.ret < 0 then
      some (if assigned.ret ≠ -EADDRNOTAVAIL then s.memBufRmtFreeMem env.mem else s)
    else
      let xferMem : XferMem := ⟨env.objId, acl, env.mem, false, assigned.memparcelHdl⟩
      if env.resp ≠ 0 then
        -- the object is on the list while the response is sent, and is taken off again
        some (s.memBufCleanupAllocReq xferMem xferMem.hdl env.cleanup)
      else some { s with list := xferMem :: s.list }

def memBufRelinquishWork (s : Supplier) (sender objId hdl : ℕ) (env : CleanupEnv) : Supplier :=
  match s.list.find? fun xferMem => xferMem.objId = objId with
  | none => s
  | some xferMem =>
    { s with
      list := s.list.erase xferMem
      released := s.released ++ [(sender, xferMem)] }.memBufCleanupAllocReq xferMem hdl env

def memBufRelinquishAllMem (vmid : ℕ) (env : XferMem → CleanupEnv) : List XferMem → Supplier → Supplier
  | [], s => s
  | xferMem :: rest, s =>
    if xferMem.acl.map Prod.fst = [vmid] then
      memBufRelinquishAllMem vmid env rest
        ({ s with list := s.list.erase xferMem }.memBufCleanupAllocReq xferMem xferMem.hdl (env xferMem))
    else memBufRelinquishAllMem vmid env rest s

inductive SupplierOp where
  | allocReq (acl : Acl) (env : AllocEnv)
  | relinquish (sender objId hdl : ℕ) (env : CleanupEnv)
  | powerOff (vmid : ℕ) (env : XferMem → CleanupEnv)
  | guestAccept (mem : ℕ)
  | guestDonate (mem hdl : ℕ)

def step (s : Supplier) : SupplierOp → Option Supplier
  | .allocReq acl env => s.memBufAllocReqWork acl env
  | .relinquish sender objId hdl env => some (s.memBufRelinquishWork sender objId hdl env)
  | .powerOff vmid env => some (memBufRelinquishAllMem vmid env s.list s)
  | .guestAccept mem =>
    if mem ∈ s.inUse then some (s.setHyp mem { s.hyp mem with memparcel := none }) else none
  | .guestDonate mem hdl =>
    if mem ∈ s.inUse ∧ (s.hyp mem).memparcel = none ∧ s.donatedBy hdl = none then
      some { s with donation := update s.donation mem (some hdl) }
    else none

/-- A relinquish message comes from the VM that has the memory, with its memparcel. -/
def Honest (s : Supplier) : SupplierOp → Prop
  | .relinquish sender objId hdl _ =>
    ∀ xferMem ∈ s.list.find? fun xferMem => xferMem.objId = objId,
      xferMem.acl.map Prod.fst = [sender] ∧ (hdl = xferMem.hdl ∨ ∀ mem ∈ s.donatedBy hdl, mem = xferMem.mem)
  | _ => True

instance (s : Supplier) (op : SupplierOp) : Decidable (s.Honest op) := by
  cases op <;> unfold Supplier.Honest <;> infer_instance

/-- Memory is freed only when it is that of HLOS alone, and only objects of the sender are released. -/
def Returned (s : Supplier) : Prop :=
  (∀ entry ∈ s.freed, entry.2 = home) ∧ ∀ entry ∈ s.released, entry.2.acl.map Prod.fst = [entry.1]

structure Accounted (s : Supplier) : Prop where
  mem_inUse : ∀ xferMem ∈ s.list, xferMem.mem ∈ s.inUse
  nodup : (s.list.map XferMem.mem).Nodup
  not_secure : ∀ xferMem ∈ s.list, xferMem.secureAlloc = false
  no_parcel : ∀ xferMem ∈ s.list, xferMem.hdl = MEM_BUF_MEMPARCEL_INVALID → (s.hyp xferMem.mem).memparcel = none
  inUse_nodup : s.inUse.Nodup
  hyp_home : ∀ mem, mem ∉ s.inUse → s.hyp mem = home
  returned : s.Returned

variable {s s' : Supplier} {xferMem : XferMem} {mem hdl other errno sender objId vmid : ℕ}

theorem accounted_init : Accounted init where
  mem_inUse _ h := nomatch h
  nodup := nodup_nil
  not_secure _ h := nomatch h
  no_parcel _ h := nomatch h
  inUse_nodup := nodup_nil
  hyp_home _ _ := rfl
  returned := ⟨fun _ h => (nomatch h), fun _ h => nomatch h⟩

theorem setHyp_self {hyp : Hyp} : (s.setHyp mem hyp).hyp mem = hyp := update_self ..

theorem setHyp_of_ne {hyp : Hyp} (hne : other ≠ mem) : (s.setHyp mem hyp).hyp other = s.hyp other :=
  update_of_ne hne ..

structure Taken (s : Supplier) (xferMem : XferMem) : Prop where
  mem_inUse : xferMem.mem ∈ s.inUse
  alone : ∀ other ∈ s.list, other.mem ≠ xferMem.mem
  not_secure : xferMem.secureAlloc = false
  no_parcel : xferMem.hdl = MEM_BUF_MEMPARCEL_INVALID → (s.hyp xferMem.mem).memparcel = none

theorem Accounted.take (h : Accounted s) (hmem : xferMem ∈ s.list) :
    Accounted { s with list := s.list.erase xferMem } ∧ Taken { s with list := s.list.erase xferMem } xferMem := by
  have hsub : ∀ other ∈ s.list.erase xferMem, other ∈ s.list := fun other => mem_of_mem_erase
  have hperm := (perm_cons_erase hmem).map XferMem.mem
  have hnd := (hperm.nodup_iff).mp h.nodup
  rw [map_cons, nodup_cons] at hnd
  refine ⟨⟨fun other ho => h.mem_inUse other (hsub other ho), hnd.2,
    fun other ho => h.not_secure other (hsub other ho), fun other ho => h.no_parcel other (hsub other ho),
    h.inUse_nodup, h.hyp_home, h.returned⟩, h.mem_inUse xferMem hmem, ?_, h.not_secure xferMem hmem,
    h.no_parcel xferMem hmem⟩
  intro other ho hsame
  exact hnd.1 (hsame ▸ mem_map_of_mem ho)

theorem Accounted.setHyp (h : Accounted s) (hmem : mem ∈ s.inUse) (hyp : Hyp)
    (hpar : ∀ other ∈ s.list, other.mem = mem → hyp.memparcel = none) : Accounted (s.setHyp mem hyp) where
  mem_inUse := h.mem_inUse
  nodup := h.nodup
  not_secure := h.not_secure
  no_parcel other ho hbad := by
    by_cases hsame : other.mem = mem
    · rw [hsame, setHyp_self]
      exact hpar other ho hsame
    · rw [setHyp_of_ne hsame]
      exact h.no_parcel other ho hbad
  inUse_nodup := h.inUse_nodup
  hyp_home other hfree := by
    have hne : other ≠ mem := fun hsame => hfree (hsame ▸ hmem)
    rw [setHyp_of_ne hne]
    exact h.hyp_home other hfree
  returned := h.returned

theorem Accounted.free (h : Accounted s) (halo : ∀ other ∈ s.list, other.mem ≠ mem)
    (hhome : s.hyp mem = home) : Accounted (s.memBufRmtFreeMem mem) where
  mem_inUse other ho := (mem_erase_of_ne (halo other ho)).mpr (h.mem_inUse other ho)
  nodup := h.nodup
  not_secure := h.not_secure
  no_parcel := h.no_parcel
  inUse_nodup := h.inUse_nodup.erase mem
  hyp_home other hfree := by
    by_cases hsame : other = mem
    · rw [hsame]
      exact hhome
    · exact h.hyp_home other fun hmem => hfree ((mem_erase_of_ne hsame).mpr hmem)
  returned := ⟨forall_mem_append.mpr ⟨h.returned.1, forall_mem_singleton.mpr hhome⟩, h.returned.2⟩

theorem mapMemS2_eq_some (h : s.memBufMapMemS2 hdl errno = some s') :
    ∃ mem ∈ s.donatedBy hdl, s' = { s.setHyp mem home with donation := update s.donation mem none } := by
  unfold memBufMapMemS2 at h
  split at h
  · cases h
  · next mem hmem =>
    split_ifs at h
    exact ⟨mem, hmem, (some.inj h).symm⟩

theorem cleanup_list (s : Supplier) (xferMem : XferMem) (hdl : ℕ) (env : CleanupEnv) :
    (s.memBufCleanupAllocReq xferMem hdl env).list = s.list := by
  unfold memBufCleanupAllocReq
  dsimp only
  split_ifs
  · rfl
  · rfl
  · rfl
  · rfl
  · split
    · rfl
    · next hmap =>
      obtain ⟨mem, -, rfl⟩ := mapMemS2_eq_some hmap
      rfl

section
variable (h : Accounted s)
include h

/-- An object that was taken off the list is cleaned up. -/
theorem Accounted.cleanup (htk : Taken s xferMem)
    (hhdl : hdl = xferMem.hdl ∨ ∀ mem ∈ s.donatedBy hdl, mem = xferMem.mem) (env : CleanupEnv) :
    Accounted (s.memBufCleanupAllocReq xferMem hdl env) := by
  have hset : ∀ hyp, Accounted (s.setHyp xferMem.mem hyp) := fun hyp =>
    h.setHyp htk.mem_inUse hyp fun other ho hsame => absurd hsame (htk.alone other ho)
  unfold memBufCleanupAllocReq
  rw [if_neg (by simp [htk.not_secure])]
  by_cases hsame : hdl = xferMem.hdl
  · rw [if_pos hsame]
    by_cases hfail : (hlos.memBufUnassignMem xferMem.acl xferMem.hdl (s.hyp xferMem.mem) env.unassign).1 < 0
    · rw [if_pos hfail]
      exact hset _
    · rw [if_neg hfail]
      refine (hset _).free htk.alone ?_
      rw [setHyp_self]
      have hdone := not_not.mp fun hret => hfail (unassignMem_spec.2 hret).1
      exact unassignMem_spec.1 hdone htk.no_parcel fun huses => absurd huses (by decide)
  rw [if_neg hsame]
  by_cases hdesc : env.desc ≠ 0
  · rw [if_pos hdesc]
    exact h
  rw [if_neg hdesc]
  split
  · exact h
  · next hmap =>
    obtain ⟨mem, hmem, rfl⟩ := mapMemS2_eq_some hmap
    obtain rfl := hhdl.resolve_left hsame mem hmem
    have hback := hset home
    exact Accounted.free { hback with } htk.alone setHyp_self

theorem Accounted.use (hfree : mem ∉ s.inUse) (hyp : Hyp) :
    Accounted { s.setHyp mem hyp with inUse := mem :: s.inUse } where
  mem_inUse other ho := mem_cons_of_mem mem (h.mem_inUse other ho)
  nodup := h.nodup
  not_secure := h.not_secure
  no_parcel other ho hbad := by
    have hne : other.mem ≠ mem := fun hsame => hfree (hsame ▸ h.mem_inUse other ho)
    rw [setHyp_of_ne hne]
    exact h.no_parcel other ho hbad
  inUse_nodup := nodup_cons.mpr ⟨hfree, h.inUse_nodup⟩
  hyp_home other ho := by
    have hne : other ≠ mem := fun hsame => ho (hsame ▸ mem_cons_self)
    rw [setHyp_of_ne hne]
    exact h.hyp_home other fun hmem => ho (mem_cons_of_mem mem hmem)
  returned := h.returned

theorem Accounted.publish (htk : Taken s xferMem) : Accounted { s with list := xferMem :: s.list } where
  mem_inUse := forall_mem_cons.mpr ⟨htk.mem_inUse, h.mem_inUse⟩
  nodup := by
    refine nodup_cons.mpr ⟨fun hmem => ?_, h.nodup⟩
    obtain ⟨other, ho, hsame⟩ := mem_map.mp hmem
    exact htk.alone other ho hsame
  not_secure := forall_mem_cons.mpr ⟨htk.not_secure, h.not_secure⟩
  no_parcel := forall_mem_cons.mpr ⟨htk.no_parcel, h.no_parcel⟩
  inUse_nodup := h.inUse_nodup
  hyp_home := h.hyp_home
  returned := h.returned

theorem Accounted.alone (hused : mem ∉ s.inUse) : ∀ other ∈ s.list, other.mem ≠ mem :=
  fun other ho hsame => hused (hsame ▸ h.mem_inUse other ho)

theorem Accounted.taken {acl : Acl} {env : AllocEnv} (hused : env.mem ∉ s.inUse)
    (hfail : ¬(hlos.memBufAssignMem acl (s.hyp env.mem) env.assign).ret < 0) :
    Taken
      { s.setHyp env.mem (hlos.memBufAssignMem acl (s.hyp env.mem) env.assign).hyp with inUse := env.mem :: s.inUse }
      ⟨env.objId, acl, env.mem, false, (hlos.memBufAssignMem acl (s.hyp env.mem) env.assign).memparcelHdl⟩ := by
  have hdone := not_not.mp fun hret => hfail (assignMem_spec.2 hret).1
  obtain ⟨hhandle, -⟩ := assignMem_spec.1 hdone (by rw [h.hyp_home env.mem hused]; rfl)
  refine ⟨mem_cons_self, h.alone hused, rfl, fun hbad => ?_⟩
  rw [setHyp_self]
  exact handle_eq_invalid_iff.mp (hhandle.symm.trans hbad)

theorem Accounted.allocReq (acl : Acl) (env : AllocEnv) (hs : s.memBufAllocReqWork acl env = some s') :
    Accounted s' := by
  revert hs
  fun_cases memBufAllocReqWork s acl env <;> rintro ⟨⟩
  case case1 => exact h
  case case3 hused assigned _ hfail =>
    have huse := h.use hused assigned.hyp
    by_cases hlost : assigned.ret = -EADDRNOTAVAIL
    · rw [if_neg (not_not.mpr hlost)]
      exact huse
    · rw [if_pos hlost]
      have hhome := h.hyp_home env.mem hused
      have hkept := ((assignMem_spec.2 (Int.ne_of_lt hfail)).2 hhome).resolve_right hlost
      exact huse.free (h.alone hused) (setHyp_self.trans (hkept.trans hhome))
  case case4 hused assigned _ hfail _ _ =>
    exact (h.use hused assigned.hyp).cleanup (h.taken hused hfail) (.inl rfl) env.cleanup
  case case5 hused assigned _ hfail _ _ => exact (h.use hused assigned.hyp).publish (h.taken hused hfail)

theorem Accounted.release (hsnd : xferMem.acl.map Prod.fst = [sender]) :
    Accounted { s with released := s.released ++ [(sender, xferMem)] } := by
  refine { h with returned := ⟨h.returned.1, forall_mem_append.mpr ⟨h.returned.2, ?_⟩⟩ }
  exact forall_mem_singleton.mpr hsnd

theorem Accounted.relinquish {env : CleanupEnv} (hok : s.Honest (.relinquish sender objId hdl env)) :
    Accounted (s.memBufRelinquishWork sender objId hdl env) := by
  unfold memBufRelinquishWork
  split
  · exact h
  · next xferMem hfind =>
    obtain ⟨hsnd, hhdl⟩ := hok xferMem hfind
    obtain ⟨hacct, htk⟩ := (h.release hsnd).take (mem_of_find?_eq_some hfind)
    exact hacct.cleanup htk hhdl env

end

theorem Accounted.relinquishAll {env : XferMem → CleanupEnv} {objects : List XferMem} (hnd : objects.Nodup)
    (h : Accounted s) (hsub : ∀ xferMem ∈ objects, xferMem ∈ s.list) :
    Accounted (memBufRelinquishAllMem vmid env objects s) := by
  induction objects generalizing s with
  | nil => exact h
  | cons xferMem rest ih =>
    obtain ⟨hnew, hnd⟩ := nodup_cons.mp hnd
    unfold memBufRelinquishAllMem
    by_cases hvmid : xferMem.acl.map Prod.fst = [vmid]
    · rw [if_pos hvmid]
      obtain ⟨hacct, htk⟩ := h.take (hsub xferMem mem_cons_self)
      refine ih hnd (hacct.cleanup htk (.inl rfl) (env xferMem)) fun other ho => ?_
      rw [cleanup_list]
      have hne : other ≠ xferMem := fun hsame => hnew (hsame ▸ ho)
      exact (mem_erase_of_ne hne).mpr (hsub other (mem_cons_of_mem xferMem ho))
    · rw [if_neg hvmid]
      exact ih hnd h fun other ho => hsub other (mem_cons_of_mem xferMem ho)

/-- Honest messages keep the memory accounted for. -/
theorem Accounted.step {op : SupplierOp} (h : Accounted s) (hok : s.Honest op) (hs : s.step op = some s') :
    Accounted s' := by
  cases op with
  | allocReq acl env => exact h.allocReq acl env hs
  | relinquish sender objId hdl env =>
    cases hs
    exact h.relinquish hok
  | powerOff vmid env =>
    cases hs
    exact h.relinquishAll h.nodup.of_map fun _ hmem => hmem
  | guestAccept mem =>
    rw [Supplier.step] at hs
    split at hs
    · next hmem =>
      cases hs
      exact h.setHyp hmem _ fun _ _ _ => rfl
    · cases hs
  | guestDonate mem hdl =>
    rw [Supplier.step] at hs
    split at hs
    · cases hs
      exact { h with }
    · cases hs

/-- In every sequence of requests, honest relinquish messages and power-offs, memory goes back to the
allocator only when it is that of HLOS alone, and no VM releases another's. -/
theorem supplier_returns_own_memory (ops : List SupplierOp) (s : Supplier)
    (hok : Meets Supplier.step Honest init ops) (h : run Supplier.step init ops = some s) : s.Returned := by
  have hacct : Accounted s :=
    run_inv (fun _ _ _ hinv hop hstep => hinv.step hop hstep) accounted_init hok h
  exact hacct.returned

def cleanupOk : CleanupEnv := ⟨⟨0, 0⟩, 0, 0⟩

def allocOk (objId mem : ℕ) (handle : Handle) : AllocEnv :=
  ⟨0, objId, 0, mem, ⟨0, 0, 0, handle, 0⟩, 0, cleanupOk⟩

/-- The trusted VM accepts memory, and donates it back with a new memparcel. -/
theorem supplier_returns_own_memory_donated : ∃ s, run Supplier.step init
      [.allocReq [(VMID_TVM, 7)] (allocOk 0 0 ⟨5, by decide⟩), .guestAccept 0, .guestDonate 0 9,
        .relinquish VMID_TVM 0 9 cleanupOk] = some s ∧
    s.freed.map Prod.fst = [0] ∧ s.Returned := by
  have hrun : (run Supplier.step init
      [.allocReq [(VMID_TVM, 7)] (allocOk 0 0 ⟨5, by decide⟩), .guestAccept 0, .guestDonate 0 9,
        .relinquish VMID_TVM 0 9 cleanupOk]).map (fun s => s.freed.map Prod.fst) = some [0] := by
    decide
  obtain ⟨s, hs, hfrd2⟩ := map_eq_some_iff.mp hrun
  exact ⟨s, hs, hfrd2, supplier_returns_own_memory _ s (by decide) hs⟩

/-- The trusted VM donates memory 0 and names the object of memory 1, which goes back to the allocator while
the trusted VM still has it. The OEM VM releases an object of the trusted VM. -/
theorem supplier_frees_assigned_memory :
    (run Supplier.step init
        [.allocReq [(VMID_TVM, 7)] (allocOk 0 0 ⟨5, by decide⟩),
          .allocReq [(VMID_TVM, 7)] (allocOk 1 1 ⟨6, by decide⟩), .guestAccept 0, .guestAccept 1,
          .guestDonate 0 9, .relinquish VMID_TVM 1 9 cleanupOk]).map (fun s => s.freed) =
      some [(1, ⟨[(VMID_TVM, 7)], none⟩)] ∧
    (run Supplier.step init
        [.allocReq [(VMID_TVM, 7)] (allocOk 0 0 ⟨5, by decide⟩), .relinquish VMID_OEMVM 0 5 cleanupOk]).map
        (fun s => s.released) =
      some [(VMID_OEMVM, ⟨0, [(VMID_TVM, 7)], 0, false, 5⟩)] := by
  decide

end Supplier

end VendorKernel.MemBuf
