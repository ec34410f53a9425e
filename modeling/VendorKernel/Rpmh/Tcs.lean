import Mathlib.Data.Fintype.Basic
import VendorKernel.Lib.Slots

/-! Trigger command sets of an RSC (`rpmh-rsc.c`): a group of TCSes with its registers, the slots for sleep
and wake requests, and the claim of a whole TCS for an active request. -/
namespace VendorKernel.Rpmh

open Slots Nat List Option

structure TcsCmd where
  addr : UInt32
  data : UInt32
  wait : Bool
deriving DecidableEq

inductive RpmhState where
  | sleep
  | wakeOnly
  | activeOnly
deriving DecidableEq

structure TcsRequest where
  state : RpmhState
  waitForCompl : Bool
  cmds : List TcsCmd

/-- `struct tcs_group` with the registers of its TCSes. TCSes are counted from `offset`, commands
from the start of their TCS. -/
structure TcsGroup where
  numTcs : ℕ
  ncpt : ℕ
  slots : ℕ → Bool
  inUse : ℕ → Bool
  /-- `RSC_DRV_CMD_ENABLE`, `RSC_DRV_CMD_WAIT_FOR_CMPL`, `RSC_DRV_CMD_ADDR`, `RSC_DRV_CMD_DATA`. -/
  cmdEnable : ℕ → ℕ → Bool
  cmdWaitForCmpl : ℕ → ℕ → Bool
  cmdAddr : ℕ → ℕ → UInt32
  cmdData : ℕ → ℕ → UInt32

def SLAVE_ID (addr : UInt32) : UInt32 := (addr >>> 16) &&& 0xf

def VRM_ADDR (addr : UInt32) : UInt32 := (addr >>> 4) &&& 0xffff

def CMD_DB_HW_VRM : UInt32 := 4

def cmdDbMatchResourceAddr (addr1 addr2 : UInt32) : Bool :=
  addr1 = addr2 ∨ SLAVE_ID addr1 = CMD_DB_HW_VRM ∧ VRM_ADDR addr1 = VRM_ADDR addr2

namespace TcsGroup

variable {g g' : TcsGroup} {msg : TcsRequest} {n slot k c : ℕ}

def empty (numTcs ncpt : ℕ) : TcsGroup :=
  { numTcs := numTcs, ncpt := ncpt, slots := fun _ => false, inUse := fun _ => false,
    cmdEnable := fun _ _ => false, cmdWaitForCmpl := fun _ _ => false, cmdAddr := fun _ _ => 0,
    cmdData := fun _ _ => 0 }

def size (g : TcsGroup) : ℕ := g.numTcs * g.ncpt

def tcsInvalidate (g : TcsGroup) : TcsGroup :=
  if ∀ k ∈ range g.size, g.slots k = false then g
  else { g with slots := fun _ => false, cmdEnable := fun _ _ => false, cmdWaitForCmpl := fun _ _ => false }

/-- The command of a message that goes to place `j` of a TCS, if the message is written from
`cmdId` on. -/
def placed (msg : TcsRequest) (cmdId j : ℕ) : Option TcsCmd :=
  if cmdId ≤ j then msg.cmds[j - cmdId]? else none

def tcsBufferWrite (g : TcsGroup) (tcsId cmdId : ℕ) (msg : TcsRequest) : TcsGroup :=
  { g with
    cmdEnable := fun m j =>
      if m = tcsId then g.cmdEnable m j || (placed msg cmdId j).isSome else g.cmdEnable m j
    cmdWaitForCmpl := fun m j =>
      if m = tcsId then g.cmdWaitForCmpl m j || (placed msg cmdId j).any (·.wait)
      else g.cmdWaitForCmpl m j
    cmdAddr := fun m j =>
      if m = tcsId then ((placed msg cmdId j).map (·.addr)).getD (g.cmdAddr m j) else g.cmdAddr m j
    cmdData := fun m j =>
      if m = tcsId then ((placed msg cmdId j).map (·.data)).getD (g.cmdData m j) else g.cmdData m j }

/-- The loop of `find_slots`. It ends with the last TCS: a search from there on finds no room. -/
def findSlotsFrom (g : TcsGroup) (n : ℕ) : ℕ → ℕ → Option ℕ
  | 0, _ => none
  | rounds + 1, i =>
    match findNextZeroArea g.slots g.size i n with
    | none => none
    | some slot => if i + g.ncpt ≤ slot + n - 1 then findSlotsFrom g n rounds (i + g.ncpt) else some slot

def findSlots (g : TcsGroup) (n : ℕ) : Option ℕ := g.findSlotsFrom n (g.numTcs + 1) 0

/-- `rpmh_rsc_write_ctrl_data`; `none` is `-ENOMEM`. -/
def rpmhRscWriteCtrlData (g : TcsGroup) (msg : TcsRequest) : Option TcsGroup :=
  if msg.cmds = [] then some g
  else
    (g.findSlots msg.cmds.length).map fun slot =>
      { g with slots := fun k => g.slots k || decide (slot ≤ k ∧ k < slot + msg.cmds.length)
      }.tcsBufferWrite (slot / g.ncpt) (slot % g.ncpt) msg

def checkForReqInflight (g : TcsGroup) (msg : TcsRequest) : Bool :=
  ∃ m ∈ range g.numTcs, g.inUse m = true ∧ ∃ j ∈ range g.ncpt, g.cmdEnable m j = true ∧
    ∃ cmd ∈ msg.cmds, cmdDbMatchResourceAddr cmd.addr (g.cmdAddr m j) = true

def findFreeTcs (g : TcsGroup) (idle : ℕ → Bool) : Option ℕ :=
  match (range g.numTcs).find? fun m => g.inUse m = false with
  | none => none
  | some m => if idle m then some m else none

def claimTcsForReq (g : TcsGroup) (msg : TcsRequest) (idle : ℕ → Bool) : Option ℕ :=
  if g.checkForReqInflight msg then none else g.findFreeTcs idle

/-- `rpmh_rsc_send_data` up to the trigger: the TCS is marked, emptied and written. -/
def program (g : TcsGroup) (tcsId : ℕ) (msg : TcsRequest) : TcsGroup :=
  { g with
    inUse := Function.update g.inUse tcsId true
    cmdEnable := Function.update g.cmdEnable tcsId fun _ => false
    cmdWaitForCmpl := Function.update g.cmdWaitForCmpl tcsId fun _ => false
  }.tcsBufferWrite tcsId 0 msg

def release (g : TcsGroup) (tcsId : ℕ) : TcsGroup :=
  { g with inUse := Function.update g.inUse tcsId false }

def reclaim (g : TcsGroup) (tcsId : ℕ) : TcsGroup :=
  { g with
    cmdEnable := Function.update g.cmdEnable tcsId fun _ => false
    cmdWaitForCmpl := Function.update g.cmdWaitForCmpl tcsId fun _ => false }

def slotCmd (g : TcsGroup) (k : ℕ) : Option TcsCmd :=
  let m := k / g.ncpt
  let j := k % g.ncpt
  if g.cmdEnable m j then some ⟨g.cmdAddr m j, g.cmdData m j, g.cmdWaitForCmpl m j⟩ else none

def enabled (g : TcsGroup) : List TcsCmd := cells g.slotCmd g.size

def Tidy (g : TcsGroup) : Prop :=
  ∀ k < g.size, g.slots k = false →
    g.cmdEnable (k / g.ncpt) (k % g.ncpt) = false ∧ g.cmdWaitForCmpl (k / g.ncpt) (k % g.ncpt) = false

theorem tidy_empty (numTcs ncpt : ℕ) : (empty numTcs ncpt).Tidy := fun _ _ _ => ⟨rfl, rfl⟩

theorem enabled_empty (numTcs ncpt : ℕ) : (empty numTcs ncpt).enabled = [] :=
  cells_eq_nil fun _ _ => rfl

theorem Tidy.slotCmd (h : g.Tidy) (hk : k < g.size) (hfree : g.slots k = false) : g.slotCmd k = none := by
  simp [TcsGroup.slotCmd, (h k hk hfree).1]

theorem Tidy.invalidate (h : g.Tidy) : g.tcsInvalidate.Tidy ∧ g.tcsInvalidate.enabled = [] := by
  unfold tcsInvalidate
  split_ifs with hemp
  · refine ⟨h, cells_eq_nil fun k hk => ?_⟩
    exact h.slotCmd hk (hemp k (mem_range.mpr hk))
  · exact ⟨fun _ _ _ => ⟨rfl, rfl⟩, cells_eq_nil fun _ _ => rfl⟩

theorem findSlotsFrom_some {rounds i : ℕ} (hn : 0 < n)
    (h : g.findSlotsFrom n rounds (i * g.ncpt) = some slot) :
    slot + n ≤ g.size ∧ (∀ k < n, g.slots (slot + k) = false) ∧ slot % g.ncpt + n ≤ g.ncpt := by
  induction rounds generalizing i with
  | zero => simp [findSlotsFrom] at h
  | succ rounds ih =>
    rw [findSlotsFrom] at h
    split at h
    · cases h
    · next found hfd =>
      obtain ⟨hini, hend, hfree⟩ := findNextZeroArea_some hfd
      split_ifs at h with hover
      · rw [← succ_mul] at h
        exact ih h
      · obtain rfl := some.inj h
        refine ⟨hend, hfree, ?_⟩
        have hdiv : found / g.ncpt = i := Nat.div_eq_of_lt_le hini (by rw [Nat.succ_mul]; omega)
        have hmod := Nat.div_add_mod found g.ncpt
        rw [hdiv, Nat.mul_comm] at hmod
        omega

theorem findSlots_some (hn : 0 < n) (h : g.findSlots n = some slot) :
    slot + n ≤ g.size ∧ (∀ k < n, g.slots (slot + k) = false) ∧ slot % g.ncpt + n ≤ g.ncpt := by
  have hfrom : g.findSlotsFrom n (g.numTcs + 1) (0 * g.ncpt) = some slot := by
    rw [Nat.zero_mul]
    exact h
  exact findSlotsFrom_some hn hfrom

theorem placed_slot (hfit : slot % c + n ≤ c) (hn : 0 < n) :
    (k / c = slot / c ∧ slot % c ≤ k % c ∧ k % c < slot % c + n ↔ slot ≤ k ∧ k < slot + n) ∧
      (slot ≤ k → k < slot + n → k % c - slot % c = k - slot) := by
  have hc : 0 < c := by omega
  have hs := div_add_mod slot c
  have hk := div_add_mod k c
  have hrg : slot ≤ k → k < slot + n → k / c = slot / c := by
    intro hle hlt
    refine Nat.div_eq_of_lt_le ?_ ?_
    · rw [Nat.mul_comm]
      omega
    · rw [Nat.add_mul, Nat.mul_comm]
      omega
  refine ⟨⟨?_, fun ⟨hle, hlt⟩ => ?_⟩, fun hle hlt => ?_⟩
  · rintro ⟨hdiv, hle, hlt⟩
    rw [hdiv] at hk
    omega
  · have hdiv := hrg hle hlt
    rw [hdiv] at hk
    omega
  · rw [hrg hle hlt] at hk
    omega

theorem slotCmd_write (slots : ℕ → Bool) (hfit : slot % g.ncpt + msg.cmds.length ≤ g.ncpt)
    (hn : 0 < msg.cmds.length)
    (hfree : ∀ k, slot ≤ k → k < slot + msg.cmds.length → g.cmdWaitForCmpl (k / g.ncpt) (k % g.ncpt) = false)
    (k : ℕ) :
    ({ g with slots := slots }.tcsBufferWrite (slot / g.ncpt) (slot % g.ncpt) msg).slotCmd k =
      if slot ≤ k ∧ k < slot + msg.cmds.length then msg.cmds[k - slot]? else g.slotCmd k := by
  obtain ⟨hiff, hsub⟩ := placed_slot hfit hn
  have hpl : (placed msg (slot % g.ncpt) (k % g.ncpt)).isSome ↔
      slot % g.ncpt ≤ k % g.ncpt ∧ k % g.ncpt < slot % g.ncpt + msg.cmds.length := by
    unfold placed
    split_ifs with hle
    · simp [hle]
      omega
    · simp [hle]
  by_cases hin : slot ≤ k ∧ k < slot + msg.cmds.length
  · obtain ⟨hdiv, hle, hlt⟩ := hiff.mpr hin
    have hlt' : k - slot < msg.cmds.length := by omega
    have hcmd : placed msg (slot % g.ncpt) (k % g.ncpt) = some msg.cmds[k - slot] := by
      rw [placed, if_pos hle, hsub hin.1 hin.2, getElem?_eq_getElem hlt']
    have hwait := hfree k hin.1 hin.2
    simp only [slotCmd, tcsBufferWrite, hdiv] at hwait ⊢
    simp [hcmd, hin, hwait, getElem?_eq_getElem hlt']
  · rw [if_neg hin]
    by_cases hdiv : k / g.ncpt = slot / g.ncpt
    · have hnone : placed msg (slot % g.ncpt) (k % g.ncpt) = none := by
        rw [← not_isSome_iff_eq_none, hpl]
        exact fun hpc => hin (hiff.mp ⟨hdiv, hpc⟩)
      simp [slotCmd, tcsBufferWrite, hnone]
    · simp [slotCmd, tcsBufferWrite, hdiv]

/-- A message takes free slots of one TCS. -/
theorem Tidy.write (h : g.Tidy) (hs : g.rpmhRscWriteCtrlData msg = some g') :
    g'.Tidy ∧ g'.enabled.Perm (g.enabled ++ msg.cmds) := by
  unfold rpmhRscWriteCtrlData at hs
  split_ifs at hs with hnil
  · cases hs
    rw [hnil, append_nil]
    exact ⟨h, List.Perm.refl _⟩
  · obtain ⟨slot, hslot, rfl⟩ := map_eq_some_iff.mp hs
    have hn := length_pos_iff.mpr hnil
    obtain ⟨hend, hfree, hfit⟩ := findSlots_some hn hslot
    replace hfree : ∀ k, slot ≤ k → k < slot + msg.cmds.length → g.slots k = false := by
      intro k hle hlt
      have hk := hfree (k - slot) (by omega)
      rwa [Nat.add_sub_cancel' hle] at hk
    have hslotCmd := slotCmd_write
      (fun k => g.slots k || decide (slot ≤ k ∧ k < slot + msg.cmds.length)) hfit hn
      fun k hle hlt => (h k (by omega) (hfree k hle hlt)).2
    refine ⟨fun k hk hclr => ?_, ?_⟩
    · simp only [tcsBufferWrite, Bool.or_eq_false_iff, decide_eq_false_iff_not] at hclr
      obtain ⟨hiff, -⟩ := placed_slot hfit hn
      have hold := h k hk hclr.1
      simp only [tcsBufferWrite]
      split_ifs with hdiv
      · have hnone : placed msg (slot % g.ncpt) (k % g.ncpt) = none := by
          unfold placed
          split_ifs with hle
          · refine getElem?_eq_none ?_
            by_contra hlt
            exact hclr.2 (hiff.mp ⟨hdiv, hle, by omega⟩)
          · rfl
        simp [hold, hnone]
      · exact hold
    · refine cells_fill hend (fun k hle hlt => h.slotCmd (by omega) (hfree k hle hlt)) ?_ ?_
      · intro k hle hlt
        rw [hslotCmd, if_pos ⟨hle, hlt⟩]
      · intro k _ hout
        rw [hslotCmd, if_neg hout]

def FreeRun (g : TcsGroup) (m j n : ℕ) : Prop :=
  m < g.numTcs ∧ j + n ≤ g.ncpt ∧ ∀ k < n, g.slots (m * g.ncpt + j + k) = false

/-- A run in a TCS is not passed over: in its round the search finds it or an earlier one. -/
theorem FreeRun.findSlotsFrom {m j rounds i : ℕ} (h : g.FreeRun m j n) (hn : 0 < n) (hi : i ≤ m)
    (hrounds : m < i + rounds) : ∃ slot, g.findSlotsFrom n rounds (i * g.ncpt) = some slot := by
  obtain ⟨hm, hj, hfree⟩ := h
  have hsize : (m + 1) * g.ncpt ≤ g.size := mul_le_mul_right _ hm
  rw [succ_mul] at hsize
  induction rounds generalizing i with
  | zero => omega
  | succ rounds ih =>
    have hini : i * g.ncpt ≤ m * g.ncpt := mul_le_mul_right _ hi
    obtain ⟨found, hle, hfd⟩ : ∃ found ≤ m * g.ncpt + j,
        findNextZeroArea g.slots g.size (i * g.ncpt) n = some found :=
      findNextZeroArea_le (by omega) (by omega) hn hfree
    rw [TcsGroup.findSlotsFrom, hfd]
    dsimp only
    split_ifs with hover
    · rw [← succ_mul]
      have hne : i ≠ m := by
        rintro rfl
        omega
      exact ih (by omega) (by omega)
    · exact ⟨found, rfl⟩

/-- A message that fits a TCS goes to free slots of one TCS, which are marked, and is refused only if no TCS has
a run of free slots for it. -/
theorem find_slots_exact (g : TcsGroup) (msg : TcsRequest) (hn : 0 < msg.cmds.length) :
    (∀ g', g.rpmhRscWriteCtrlData msg = some g' → ∃ m j, g.FreeRun m j msg.cmds.length ∧
      g' = { g with
        slots := fun k => g.slots k ||
          decide (m * g.ncpt + j ≤ k ∧ k < m * g.ncpt + j + msg.cmds.length) }.tcsBufferWrite m j msg) ∧
    (g.rpmhRscWriteCtrlData msg = none → ∀ m j, ¬g.FreeRun m j msg.cmds.length) := by
  rw [rpmhRscWriteCtrlData, if_neg (length_pos_iff.mp hn)]
  refine ⟨fun g' hs => ?_, fun hs m j hrun => ?_⟩
  · obtain ⟨slot, hslot, rfl⟩ := map_eq_some_iff.mp hs
    obtain ⟨hend, hfree, hfit⟩ := findSlots_some hn hslot
    have hpc : slot / g.ncpt * g.ncpt + slot % g.ncpt = slot := div_add_mod' ..
    refine ⟨slot / g.ncpt, slot % g.ncpt, ⟨?_, hfit, by rwa [hpc]⟩, by rw [hpc]⟩
    rw [size, Nat.mul_comm] at hend
    exact Nat.div_lt_of_lt_mul (by omega)
  · have hm := hrun.1
    obtain ⟨slot, hslot⟩ := hrun.findSlotsFrom hn (Nat.zero_le m) (by omega : m < 0 + (g.numTcs + 1))
    rw [Nat.zero_mul] at hslot
    rw [findSlots, hslot] at hs
    cases hs

/-- Two commands do not fit behind the two slots that are taken, and go to the second TCS. -/
theorem find_slots_exact_second_tcs : ∃ m j, FreeRun { empty 2 3 with slots := fun k => decide (k < 2) } m j 2 :=
  have hwrite := (find_slots_exact { empty 2 3 with slots := fun k => decide (k < 2) }
    ⟨.sleep, false, [⟨1, 2, false⟩, ⟨3, 4, false⟩]⟩ (by decide)).1 _ rfl
  hwrite.imp fun _ => Exists.imp fun _ => And.left

end TcsGroup

end VendorKernel.Rpmh
