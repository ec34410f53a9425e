import Mathlib.Data.Int.Notation
import Mathlib.Data.List.Basic

/-! The hypervisor resources of a VM (`gh_rm_core.c`): the entries that the resource manager lists,
and the interrupts that `gh_rm_unpopulate_hyp_res` gives back. -/
namespace VendorKernel.Gunyah

open Option List Nat

def ENXIO : ℤ := 6
def EINVAL : ℤ := 22

inductive ResType where
  | dbTx
  | dbRx
  | mqTx
  | mqRx
  | vcpu
  | vpmgrp
  | virtioMmio
  | watchdog
  | unknown (resType : ℕ)
deriving DecidableEq

structure HypRes where
  resType : ResType
  resourceLabel : ℕ
  virqHandle : ℕ
  virq : ℕ
  /-- What `gh_rm_virq_to_irq` returns in the pass over the vCPUs and in the second pass. -/
  vcpuMapped : ℤ
  mapped : ℤ
  /-- What its population callback returns in the end (it is repeated for `-EAGAIN`). -/
  setRet : ℤ
  /-- The callback has populated the vCPU or VPM group: it skips those of a VM without proxy scheduling. -/
  kept : Bool
  /-- What the reset callback of the proxy scheduler writes to `*irq`, if it writes. -/
  report : Option ℤ
deriving DecidableEq

/-- The two drivers with a reset callback for vCPUs. That of `gh_vcpu_mgr.c` never writes `*irq`, and does nothing
before all resources are populated. -/
inductive VcpuDriver where
  | vcpuMgr
  | proxySched
deriving DecidableEq

/-- The least labels of the message queues and the doorbells of this driver, and the callbacks that
are registered. -/
structure RmConfig where
  minMsgq : ℕ
  minBell : ℕ
  vcpuAffinitySet : Bool
  vcpuAffinityReset : Option VcpuDriver
  vpmGrpSet : Bool
  vpmGrpReset : Bool
  virtioMmio : Bool
  wdogManage : Bool

def U32_MAX : ℕ := 0xffffffff

def ghRmGetIrq (entry : HypRes) (mapped : ℤ) : ℤ :=
  if entry.virqHandle = 0 ∧ entry.virq = 0 ∨ entry.virq = U32_MAX then 0 else mapped

structure Unpopulated where
  puts : List (HypRes × ℤ)
  reset : List HypRes
  ret : ℤ
  irq : ℤ

def HypRes.linuxIrq (entry : HypRes) : ℤ := ghRmGetIrq entry entry.mapped

def HypRes.obtained (entry : HypRes) : Option ℤ := if 0 < entry.linuxIrq then some entry.linuxIrq else none

namespace RmConfig

variable (cfg : RmConfig)

def isValidDblMsgq (entry : HypRes) : Bool :=
  match entry.resType with
  | .mqTx | .mqRx => cfg.minMsgq ≤ entry.resourceLabel
  | .dbTx | .dbRx => cfg.minBell ≤ entry.resourceLabel
  | _ => true

/-- The switch of `gh_rm_unpopulate_hyp_res`: the values it gives to `ret` and, if it does, to `irq`. The
resource was populated with its interrupt. -/
def resetRes (entry : HypRes) : Option ℤ × Option ℤ :=
  match entry.resType with
  | .mqTx | .mqRx | .dbRx =>
    if entry.linuxIrq = 0 then (some (- ENXIO), none) else (some 0, some entry.linuxIrq)
  | .dbTx => (some 0, some 0)
  | .vcpu =>
    match cfg.vcpuAffinityReset with
    | none => (none, none)
    | some .vcpuMgr => (some 0, none)
    | some .proxySched => (some 0, entry.report)
  | .virtioMmio => (none, none)
  | .vpmgrp => if cfg.vpmGrpReset then (some 0, entry.report) else (none, none)
  | .watchdog => if cfg.wdogManage then (some 0, none) else (none, none)
  | .unknown _ => (some (-EINVAL), none)

/-- The loop of `gh_rm_unpopulate_hyp_res`, for a switch. The variables `ret` and `irq` are carried
from entry to entry. -/
def unpopulate (switch : HypRes → Option ℤ × Option ℤ) : ℤ → ℤ → List HypRes → Unpopulated
  | ret, irq, [] => ⟨[], [], ret, irq⟩
  | ret, irq, entry :: entries =>
    if cfg.isValidDblMsgq entry = false then unpopulate switch ret irq entries
    else
      let ret' := (switch entry).1.getD ret
      let irq' := (switch entry).2.getD irq
      if ret' < 0 then ⟨[], [], ret', irq'⟩
      else
        let rest := unpopulate switch ret' irq' entries
        { rest with
          puts := if 0 ≤ irq' then (entry, irq') :: rest.puts else rest.puts
          reset := if (switch entry).1.isSome then entry :: rest.reset else rest.reset }

def ghRmUnpopulateHypRes (entries : List HypRes) : Unpopulated :=
  cfg.unpopulate cfg.resetRes 0 (-1) entries

/-- The interrupt that the population of an entry obtained, unless its type reports none. -/
def owed (entry : HypRes) : Option ℤ :=
  match entry.resType with
  | .mqTx | .mqRx | .dbRx => entry.obtained
  | .dbTx => some 0
  | .vcpu => if cfg.vcpuAffinityReset.isSome then entry.obtained else none
  | .vpmgrp => if cfg.vpmGrpReset then entry.obtained else none
  | .virtioMmio | .watchdog | .unknown _ => none

def owedCalls (entries : List HypRes) : List (HypRes × ℤ) :=
  (entries.filter fun entry => cfg.isValidDblMsgq entry).filterMap fun entry =>
    (cfg.owed entry).map fun irq => (entry, irq)

/-- The entries of a populated VM: no reset fails, and the interrupts they report are different ones. -/
structure FullyPopulated (entries : List HypRes) : Prop where
  reset : ∀ entry ∈ entries, cfg.isValidDblMsgq entry = true →
    (∀ ret ∈ (cfg.resetRes entry).1, 0 ≤ ret) ∧ ∀ irq ∈ (cfg.resetRes entry).2, 0 ≤ irq
  distinct : entries.Pairwise fun entry entry' => 0 < entry.linuxIrq → entry.linuxIrq ≠ entry'.linuxIrq

/-- The reset callbacks write the interrupt that was obtained, and nothing if there is none. -/
def CallbacksReport (entries : List HypRes) : Prop :=
  ∀ entry ∈ entries, match entry.resType with
    | .vcpu =>
      match cfg.vcpuAffinityReset with
      | none => True
      | some .vcpuMgr => entry.obtained = none
      | some .proxySched => entry.report = entry.obtained
    | .vpmgrp => cfg.vpmGrpReset = true → entry.report = entry.obtained
    | _ => True

/-- No entry without an interrupt comes after one that has an interrupt. -/
def OwedLast (entries : List HypRes) : Prop :=
  (entries.filter fun entry => cfg.isValidDblMsgq entry).Pairwise fun entry entry' =>
    (cfg.owed entry).isSome → (cfg.owed entry').isSome

variable {cfg} {entry : HypRes} {entries : List HypRes} {ret irq : ℤ}

theorem FullyPopulated.tail (h : cfg.FullyPopulated (entry :: entries)) : cfg.FullyPopulated entries :=
  ⟨fun e he => h.reset e (mem_cons_of_mem entry he), (pairwise_cons.mp h.distinct).2⟩

theorem FullyPopulated.ret_nonneg (h : cfg.FullyPopulated (entry :: entries))
    (hval : cfg.isValidDblMsgq entry = true) (hret : 0 ≤ ret) :
    0 ≤ (cfg.resetRes entry).1.getD ret := by
  cases hres : (cfg.resetRes entry).1 with
  | none => exact hret
  | some r => exact (h.reset entry mem_cons_self hval).1 r hres

theorem unpopulate_invalid (hval : cfg.isValidDblMsgq entry = false) :
    cfg.unpopulate cfg.resetRes ret irq (entry :: entries) = cfg.unpopulate cfg.resetRes ret irq entries := by
  rw [unpopulate, if_pos hval]

theorem unpopulate_cons (irq : ℤ) (h : cfg.FullyPopulated (entry :: entries))
    (hval : cfg.isValidDblMsgq entry = true) (hret : 0 ≤ ret) :
    ∃ ret', 0 ≤ ret' ∧ (cfg.unpopulate cfg.resetRes ret irq (entry :: entries)).puts =
      if 0 ≤ (cfg.resetRes entry).2.getD irq then (entry, (cfg.resetRes entry).2.getD irq) ::
        (cfg.unpopulate cfg.resetRes ret' ((cfg.resetRes entry).2.getD irq) entries).puts
      else (cfg.unpopulate cfg.resetRes ret' ((cfg.resetRes entry).2.getD irq) entries).puts := by
  have hret' := h.ret_nonneg hval hret
  refine ⟨_, hret', ?_⟩
  rw [unpopulate, if_neg (by simp [hval])]
  simp only [Int.not_lt.mpr hret', if_false]

theorem owedCalls_cons (hval : cfg.isValidDblMsgq entry = true) : cfg.owedCalls (entry :: entries) =
    ((cfg.owed entry).map fun irq => (entry, irq)).toList ++ cfg.owedCalls entries := by
  cases howed : cfg.owed entry <;> simp [owedCalls, hval, howed]

theorem owed_of_mem_owedCalls (h : (entry, irq) ∈ cfg.owedCalls entries) : cfg.owed entry = some irq := by
  obtain ⟨e, -, he⟩ := mem_filterMap.mp h
  obtain ⟨i, hi, heq⟩ := map_eq_some_iff.mp he
  cases heq
  exact hi

theorem mem_of_mem_puts {call : HypRes × ℤ} (h : call ∈ (cfg.unpopulate cfg.resetRes ret irq entries).puts) :
    call.1 ∈ entries := by
  revert h
  fun_induction unpopulate cfg cfg.resetRes ret irq entries with
  | case1 | case3 => exact (absurd · not_mem_nil)
  | case2 _ _ _ _ _ ih => exact fun h => mem_cons_of_mem _ (ih h)
  | case4 _ _ _ _ _ _ _ _ _ ih =>
    intro h
    dsimp only at h
    split_ifs at h
    · rcases mem_cons.mp h with rfl | h
      · exact mem_cons_self
      · exact mem_cons_of_mem _ (ih h)
    · exact mem_cons_of_mem _ (ih h)

theorem obtained_eq_some (h : entry.obtained = some irq) : entry.linuxIrq = irq ∧ 0 < irq := by
  unfold HypRes.obtained at h
  split_ifs at h with hpos
  cases h
  exact ⟨rfl, hpos⟩

theorem owed_eq_some (h : cfg.owed entry = some irq) :
    irq = 0 ∧ (cfg.resetRes entry).2 = some 0 ∨ entry.linuxIrq = irq ∧ 0 < irq := by
  unfold owed at h
  cases htype : entry.resType with rw [htype] at h
  | mqTx | mqRx | dbRx => exact .inr (obtained_eq_some h)
  | dbTx =>
    cases h
    exact .inl ⟨rfl, by simp [resetRes, htype]⟩
  | vcpu | vpmgrp =>
    dsimp only at h
    split_ifs at h
    exact .inr (obtained_eq_some h)
  | virtioMmio | watchdog | unknown => cases h

/-- The switch reports what is owed, if its callback does. -/
theorem reports_iff (h : cfg.FullyPopulated entries) :
    (∀ e ∈ entries, cfg.isValidDblMsgq e = true → (cfg.resetRes e).2 = cfg.owed e) ↔ cfg.CallbacksReport entries := by
  refine forall₂_congr fun e he => ?_
  have hreset := fun hval => (h.reset e he hval).2
  unfold owed
  unfold resetRes at hreset ⊢
  cases htype : e.resType with
  | vcpu => cases hfn : cfg.vcpuAffinityReset with
    | none => simp [isValidDblMsgq, htype]
    | some d => cases d <;> simp [isValidDblMsgq, htype, eq_comm]
  | vpmgrp => cases hfn : cfg.vpmGrpReset <;> simp [isValidDblMsgq, htype]
  | mqTx | mqRx | dbRx =>
    refine iff_of_true (fun hval => ?_) trivial
    have hnn := hreset hval
    rw [htype] at hnn
    by_cases hzero : e.linuxIrq = 0
    · simp [HypRes.obtained, hzero]
    · simp only [hzero, if_false, mem_some_iff, forall_eq'] at hnn
      simp [HypRes.obtained, hzero, show 0 < e.linuxIrq by omega]
  | watchdog => cases hfn : cfg.wdogManage <;> simp
  | dbTx | virtioMmio | unknown => simp

def AllOwed (cfg : RmConfig) (entries : List HypRes) : Prop :=
  ∀ entry ∈ entries, cfg.isValidDblMsgq entry = true → (cfg.owed entry).isSome

theorem allOwed_cons (hval : cfg.isValidDblMsgq entry = true) :
    cfg.AllOwed (entry :: entries) ↔ (cfg.owed entry).isSome ∧ cfg.AllOwed entries := by
  simp [AllOwed, hval]

theorem owedLast_cons (hval : cfg.isValidDblMsgq entry = true) :
    cfg.OwedLast (entry :: entries) ↔
      ((cfg.owed entry).isSome → cfg.AllOwed entries) ∧ cfg.OwedLast entries := by
  simp only [OwedLast, AllOwed, filter_cons, hval, if_true, pairwise_cons, mem_filter]
  exact and_congr_left fun _ => ⟨fun h hsome e he hv => h e ⟨he, hv⟩ hsome,
    fun h e he hsome => h hsome e he.1 he.2⟩

theorem cons_ne_owedCalls {i : ℤ} {calls : List (HypRes × ℤ)} (howed : cfg.owed entry = none) :
    (entry, i) :: calls ≠ cfg.owedCalls entries := by
  intro hcalls
  rw [owed_of_mem_owedCalls (hcalls ▸ mem_cons_self)] at howed
  cases howed

/-- The calls are those that are owed, with the interrupt `irq` carried along: it is none of the entries'. -/
theorem unpopulate_eq_owedCalls (h : cfg.FullyPopulated entries) (hret : 0 ≤ ret)
    (hirq : ∀ e ∈ entries, 0 < e.linuxIrq → irq ≠ e.linuxIrq) :
    (cfg.unpopulate cfg.resetRes ret irq entries).puts = cfg.owedCalls entries ↔
      ((0 ≤ irq → cfg.AllOwed entries) ∧ cfg.OwedLast entries) ∧
        ∀ e ∈ entries, cfg.isValidDblMsgq e = true → (cfg.resetRes e).2 = cfg.owed e := by
  induction entries generalizing ret irq with
  | nil => simp [unpopulate, owedCalls, AllOwed, OwedLast]
  | cons entry entries ih =>
    have hdist := (pairwise_cons.mp h.distinct).1
    have hirq' : ∀ e ∈ entries, 0 < e.linuxIrq → irq ≠ e.linuxIrq :=
      fun e he => hirq e (mem_cons_of_mem entry he)
    cases hval : cfg.isValidDblMsgq entry with
    | false =>
      rw [unpopulate_invalid hval]
      simpa [owedCalls, AllOwed, OwedLast, hval] using ih h.tail hret hirq'
    | true =>
      obtain ⟨ret', hret', heq⟩ := unpopulate_cons irq h hval hret
      rw [allOwed_cons hval, owedLast_cons hval, owedCalls_cons hval, heq, forall_mem_cons]
      cases hrep : (cfg.resetRes entry).2 with
      | none =>
        cases howed : cfg.owed entry with
        | none =>
          by_cases hneg : 0 ≤ irq
          · simp [hneg, cons_ne_owedCalls howed]
          · simpa [hneg, hval] using ih h.tail hret' hirq'
        | some i =>
          -- an interrupt that is not reported is not given back
          refine iff_of_false (fun hcalls => ?_) (fun hcond => by cases hcond.2.1 hval)
          obtain ⟨-, hsome⟩ | ⟨rfl, hpos⟩ := owed_eq_some howed
          · rw [hrep] at hsome
            cases hsome
          · simp only [getD_none, map_some, toList_some, singleton_append] at hcalls
            split_ifs at hcalls
            · exact hirq entry mem_cons_self hpos (Prod.mk.inj (cons.inj hcalls).1).2
            · have hmem := mem_of_mem_puts (hcalls ▸ mem_cons_self)
              exact hdist entry hmem hpos rfl
      | some i =>
        have hi := (h.reset entry mem_cons_self hval).2 i hrep
        cases howed : cfg.owed entry with
        | none => simp [hi, cons_ne_owedCalls howed, hval]
        | some j =>
          by_cases hij : i = j
          · subst hij
            have hrest := @ih ret' i h.tail hret' fun e he hpos => by
              obtain ⟨rfl, -⟩ | ⟨rfl, hpos'⟩ := owed_eq_some howed
              · exact Int.ne_of_lt hpos
              · exact hdist e he hpos'
            simp only [getD_some, hi, if_true, map_some, toList_some, singleton_append, cons.injEq, true_and,
              isSome_some, true_implies, implies_true] at hrest ⊢
            rw [hrest]
            exact and_congr_left fun _ => ⟨fun hall => ⟨fun _ => hall.1, hall⟩, fun hall => hall.2⟩
          · simp [hi, hij, hval]

/-- Each interrupt that the population obtained is given back once, with its own entry, exactly if the callbacks
report it and no entry without an interrupt comes after one that has one. -/
theorem unpopulate_puts_irqs (cfg : RmConfig) (entries : List HypRes) (h : cfg.FullyPopulated entries) :
    (cfg.ghRmUnpopulateHypRes entries).puts = cfg.owedCalls entries ↔
      cfg.OwedLast entries ∧ cfg.CallbacksReport entries := by
  have hirq : ∀ e ∈ entries, 0 < e.linuxIrq → -1 ≠ e.linuxIrq := by
    intro e _ hpos
    omega
  rw [ghRmUnpopulateHypRes, unpopulate_eq_owedCalls h (Int.le_refl 0) hirq, reports_iff h]
  exact and_congr_left fun _ => and_iff_right_of_imp fun _ hneg => absurd hneg (by decide)

def resOf (resType : ResType) (label : ℕ) (irq : ℤ) : HypRes :=
  { resType := resType, resourceLabel := label, virqHandle := label, virq := label, vcpuMapped := irq,
    mapped := irq, setRet := 0, kept := true, report := if irq = 0 then none else some irq }

def rmConfig : RmConfig :=
  { minMsgq := 1, minBell := 0, vcpuAffinitySet := true, vcpuAffinityReset := some .vcpuMgr, vpmGrpSet := true,
    vpmGrpReset := true, virtioMmio := true, wdogManage := true }

/-- A watchdog comes before a queue and a vCPU. -/
theorem unpopulate_puts_irqs_watchdog_first :
    ({ rmConfig with vcpuAffinityReset := some .proxySched }.ghRmUnpopulateHypRes
      [resOf .watchdog 1 7, resOf .mqTx 2 8, resOf .vcpu 3 9]).puts = [(resOf .mqTx 2 8, 8), (resOf .vcpu 3 9, 9)] :=
  (unpopulate_puts_irqs _ _ ⟨by decide, by decide⟩).mpr ⟨by unfold OwedLast; decide, by
    simp [CallbacksReport, resOf, HypRes.obtained, HypRes.linuxIrq, ghRmGetIrq, U32_MAX]⟩

/-- The interrupt of a message queue is given back a second time, with the entry of the watchdog. That of a vCPU
is never given back by `gh_vcpu_mgr.c`. -/
theorem unpopulate_puts_carried_irq :
    rmConfig.FullyPopulated [resOf .mqTx 2 8, resOf .watchdog 1 7] ∧
      (rmConfig.ghRmUnpopulateHypRes [resOf .mqTx 2 8, resOf .watchdog 1 7]).puts =
        [(resOf .mqTx 2 8, 8), (resOf .watchdog 1 7, 8)] ∧
      rmConfig.owedCalls [resOf .mqTx 2 8, resOf .watchdog 1 7] = [(resOf .mqTx 2 8, 8)] ∧
    rmConfig.FullyPopulated [resOf .vcpu 3 9] ∧
      (rmConfig.ghRmUnpopulateHypRes [resOf .vcpu 3 9]).puts = [] ∧
      rmConfig.owedCalls [resOf .vcpu 3 9] = [(resOf .vcpu 3 9, 9)] :=
  ⟨⟨by decide, by decide⟩, by decide, by decide, ⟨by decide, by decide⟩, by decide, by decide⟩

end RmConfig

end VendorKernel.Gunyah
