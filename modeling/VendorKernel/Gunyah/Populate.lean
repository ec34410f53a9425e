import Mathlib.Data.List.TakeWhile
import VendorKernel.Gunyah.HypRes

/-! `gh_rm_populate_hyp_res` (`gh_rm_core.c`): the pass over the vCPUs, the pass over the other
resources, and the rollback with `gh_rm_unpopulate_target_hyp_res`. -/
namespace VendorKernel.Gunyah

open List

structure Populated where
  ret : ℤ
  /-- The message queues, doorbells, vCPUs, VPM groups and watchdogs that the call has populated and
  not reset. -/
  held : List HypRes
  complete : Bool

namespace RmConfig

variable (cfg : RmConfig)

def vcpuIrq (entry : HypRes) : ℤ := ghRmGetIrq entry entry.vcpuMapped

def setVcpu (entry : HypRes) : ℤ :=
  if vcpuIrq entry < 0 then vcpuIrq entry
  else if cfg.vcpuAffinitySet then entry.setRet
  else vcpuIrq entry

def holdsVcpu (entry : HypRes) : Bool :=
  entry.resType = .vcpu ∧ cfg.vcpuAffinitySet = true ∧ entry.kept = true

def vcpuPass : ℤ → List HypRes → Populated
  | ret, [] => ⟨ret, [], true⟩
  | ret, entry :: entries =>
    if entry.resType = .vcpu then
      if cfg.setVcpu entry < 0 then ⟨cfg.setVcpu entry, [], false⟩
      else
        let rest := vcpuPass (cfg.setVcpu entry) entries
        if cfg.holdsVcpu entry then { rest with held := entry :: rest.held } else rest
    else vcpuPass ret entries

/-- The switch of the second pass: what the population function of the resource returns, if there is one.
`request_irq` fails for interrupt 0. -/
def populateRes (entry : HypRes) : Option ℤ :=
  match entry.resType with
  | .mqTx | .mqRx => if entry.linuxIrq = 0 then some (-EINVAL) else some entry.setRet
  | .vcpu => none
  | .dbTx => if 0 < entry.linuxIrq then some (- ENXIO) else some entry.setRet
  | .dbRx => if entry.linuxIrq ≤ 0 then some (- ENXIO) else some entry.setRet
  | .vpmgrp => if cfg.vpmGrpSet then some entry.setRet else none
  | .virtioMmio => if cfg.virtioMmio then some entry.setRet else none
  | .watchdog => if cfg.wdogManage then some entry.setRet else none
  | .unknown _ => some (-EINVAL)

/-- The value of `ret` after the switch: an entry without a function keeps its interrupt there. -/
def populateRet (entry : HypRes) : ℤ := (cfg.populateRes entry).getD entry.linuxIrq

def holds (entry : HypRes) : Bool :=
  cfg.isValidDblMsgq entry = true ∧ (cfg.populateRes entry).isSome = true ∧ entry.resType ≠ .virtioMmio ∧
    (entry.resType = .vpmgrp → entry.kept = true)

/-- The switch of `gh_rm_unpopulate_target_hyp_res`, which leaves the vCPUs for later. -/
def resetTarget (entry : HypRes) : Option ℤ × Option ℤ :=
  if entry.resType = .vcpu then (none, none) else cfg.resetRes entry

/-- For the entries before the one that failed. The vCPU callback of `gh_vcpu_mgr.c` does nothing here. -/
def ghRmUnpopulateTargetHypRes (all targets : List HypRes) : Unpopulated :=
  let first := cfg.unpopulate cfg.resetTarget 0 (-1) targets
  if first.ret < 0 then first
  else
    let second := cfg.unpopulate cfg.resetRes first.ret first.irq
      (all.filter fun entry => entry.resType = .vcpu ∧ cfg.vcpuAffinityReset.isSome = true)
    { second with
      puts := first.puts ++ second.puts
      reset := first.reset ++ if cfg.vcpuAffinityReset = some .proxySched then second.reset else [] }

def resPass (all : List HypRes) : List HypRes → List HypRes → ℤ → List HypRes → Populated
  | _, held, ret, [] => ⟨ret, held, true⟩
  | targets, held, ret, entry :: entries =>
    if cfg.isValidDblMsgq entry = false then resPass all (targets ++ [entry]) held ret entries
    else if entry.linuxIrq < 0 then ⟨entry.linuxIrq, held, false⟩
    else if cfg.populateRet entry < 0 then
      ⟨cfg.populateRet entry, held.filter fun e => e ∉ (cfg.ghRmUnpopulateTargetHypRes all targets).reset, false⟩
    else
      resPass all (targets ++ [entry]) (if cfg.holds entry then held ++ [entry] else held)
        (cfg.populateRet entry) entries

def ghRmPopulateHypRes (entries : List HypRes) : Populated :=
  let first := cfg.vcpuPass 0 entries
  if first.complete = false then first else cfg.resPass entries [] first.held first.ret entries

def vcpuOk (entry : HypRes) : Bool := entry.resType = .vcpu → 0 ≤ cfg.setVcpu entry

def resOk (entry : HypRes) : Bool :=
  cfg.isValidDblMsgq entry = true → 0 ≤ entry.linuxIrq ∧ 0 ≤ cfg.populateRet entry

/-- After a failure nothing that was populated is left, and a call without one returns 0. -/
def Sound (result : Populated) : Prop :=
  (result.ret < 0 → result.held = []) ∧ (result.complete = true → result.ret = 0)

/-- By where the first failure is: before anything is populated; or what was populated has its reset function; or
nothing fails, and the last entry leaves 0 in `ret`. -/
def Clean (entries : List HypRes) : Prop :=
  match entries.dropWhile cfg.vcpuOk with
  | _ :: _ => ∀ e ∈ entries.takeWhile cfg.vcpuOk, cfg.holdsVcpu e = false
  | [] =>
    match entries.dropWhile cfg.resOk with
    | entry :: _ =>
      if entry.linuxIrq < 0 then
        (∀ e ∈ entries, cfg.holdsVcpu e = false) ∧ ∀ e ∈ entries.takeWhile cfg.resOk, cfg.holds e = false
      else
        (∀ e ∈ entries, cfg.holdsVcpu e = true → cfg.vcpuAffinityReset = some .proxySched) ∧
          ∀ e ∈ entries.takeWhile cfg.resOk, cfg.holds e = true → e.resType = .vpmgrp → cfg.vpmGrpReset = true
    | [] => ∀ e ∈ (entries.filter fun e => cfg.isValidDblMsgq e).getLast?, cfg.populateRet e = 0

variable {cfg} {entry : HypRes} {entries held rest all targets : List HypRes} {ret : ℤ}

/-- The vCPUs in front of the first failure are populated. -/
theorem vcpuPass_eq (ret : ℤ) (entries : List HypRes) :
    (cfg.vcpuPass ret entries).held = (entries.takeWhile cfg.vcpuOk).filter cfg.holdsVcpu ∧
      ((cfg.vcpuPass ret entries).complete = true ↔ entries.dropWhile cfg.vcpuOk = []) ∧
      ((cfg.vcpuPass ret entries).complete = false → (cfg.vcpuPass ret entries).ret < 0) := by
  induction entries generalizing ret with
  | nil => simp [vcpuPass]
  | cons entry entries ih =>
    by_cases hvcpu : entry.resType = .vcpu
    · by_cases hfail : cfg.setVcpu entry < 0
      · have hok : cfg.vcpuOk entry = false := by simp [vcpuOk, hvcpu, hfail]
        simp [vcpuPass, hvcpu, hfail, hok]
      · have hok : cfg.vcpuOk entry = true := by simp [vcpuOk, Int.not_lt.mp hfail]
        obtain ⟨hheld, hcomp, hret⟩ := ih (cfg.setVcpu entry)
        cases hhs : cfg.holdsVcpu entry with
        | true =>
          simp only [vcpuPass, hvcpu, hfail, if_true, if_false, takeWhile_cons, dropWhile_cons, hok, filter_cons,
            hhs, hheld]
          exact ⟨trivial, hcomp, hret⟩
        | false =>
          simp only [vcpuPass, hvcpu, hfail, if_true, if_false, Bool.false_eq_true, takeWhile_cons,
            dropWhile_cons, hok, filter_cons, hhs]
          exact ⟨hheld, hcomp, hret⟩
    · have hok : cfg.vcpuOk entry = true := by simp [vcpuOk, hvcpu]
      have hhs : cfg.holdsVcpu entry = false := by simp [holdsVcpu, hvcpu]
      simp only [vcpuPass, hvcpu, if_false, Bool.false_eq_true, takeWhile_cons, dropWhile_cons, hok,
        if_true, filter_cons, hhs]
      exact ih ret

theorem vcpuPass_ret (h : ∀ e ∈ entries, e.resType ≠ .vcpu) : (cfg.vcpuPass ret entries).ret = ret := by
  induction entries with
  | nil => rfl
  | cons entry entries ih =>
    rw [vcpuPass, if_neg (h entry mem_cons_self)]
    exact ih fun e he => h e (mem_cons_of_mem entry he)

def lastRet (cfg : RmConfig) (ret : ℤ) (entries : List HypRes) : ℤ :=
  ((entries.filter fun e => cfg.isValidDblMsgq e).getLast?.map cfg.populateRet).getD ret

theorem lastRet_cons (hval : cfg.isValidDblMsgq entry = true) :
    cfg.lastRet ret (entry :: entries) = cfg.lastRet (cfg.populateRet entry) entries := by
  simp only [lastRet, filter_cons, hval, if_true, getLast?_cons]
  cases (entries.filter fun e => cfg.isValidDblMsgq e).getLast? <;> rfl

theorem held_append :
    (if cfg.holds entry then held ++ [entry] else held) ++ rest.filter cfg.holds =
      held ++ (entry :: rest).filter cfg.holds := by
  cases hhs : cfg.holds entry <;> simp [hhs]

/-- The second pass up to the first failure. -/
theorem resPass_spec : entries.dropWhile cfg.resOk = rest → match rest with
    | [] => cfg.resPass all targets held ret entries =
      ⟨cfg.lastRet ret entries, held ++ entries.filter cfg.holds, true⟩
    | entry :: _ => (cfg.resPass all targets held ret entries).complete = false ∧
      (cfg.resPass all targets held ret entries).ret < 0 ∧
      (cfg.resPass all targets held ret entries).held =
        if entry.linuxIrq < 0 then held ++ (entries.takeWhile cfg.resOk).filter cfg.holds
        else (held ++ (entries.takeWhile cfg.resOk).filter cfg.holds).filter fun e =>
          e ∉ (cfg.ghRmUnpopulateTargetHypRes all (targets ++ entries.takeWhile cfg.resOk)).reset := by
  fun_induction resPass cfg all targets held ret entries with
  | case1 =>
    rintro rfl
    simp [lastRet]
  | case2 targets held ret first entries hval ih =>
    have hok : cfg.resOk first = true := by simp [resOk, hval]
    simpa [hok, lastRet, holds, hval] using ih
  | case3 targets held ret first entries hval hirq =>
    have hbad : ¬cfg.resOk first = true := by simp [resOk, hval, Int.not_le.mpr hirq]
    rw [dropWhile_cons]
    rintro rfl
    simp [hbad, hirq]
  | case4 targets held ret first entries hval hirq hret =>
    have hbad : ¬cfg.resOk first = true := by simp [resOk, hval, Int.not_le.mpr hret]
    rw [dropWhile_cons]
    rintro rfl
    simp [hbad, hirq, hret]
  | case5 targets held ret first entries hval hirq hret ih =>
    have hok : cfg.resOk first = true := by simp [resOk, Int.not_lt.mp hirq, Int.not_lt.mp hret]
    rw [dropWhile_cons, if_pos hok, lastRet_cons (by simpa using hval), takeWhile_cons, if_pos hok,
      append_cons _ _ (takeWhile ..), ← held_append, ← held_append]
    exact ih

theorem unpopulate_reset (switch : HypRes → Option ℤ × Option ℤ) (irq : ℤ) (hret : 0 ≤ ret)
    (h : ∀ e ∈ entries, cfg.isValidDblMsgq e = true → ∀ r ∈ (switch e).1, 0 ≤ r) :
    0 ≤ (cfg.unpopulate switch ret irq entries).ret ∧
      (cfg.unpopulate switch ret irq entries).reset =
        entries.filter fun e => cfg.isValidDblMsgq e = true ∧ (switch e).1.isSome = true := by
  induction entries generalizing ret irq with
  | nil => exact ⟨hret, rfl⟩
  | cons entry entries ih =>
    have htail : ∀ e ∈ entries, cfg.isValidDblMsgq e = true → ∀ r ∈ (switch e).1, 0 ≤ r :=
      fun e he => h e (mem_cons_of_mem entry he)
    cases hval : cfg.isValidDblMsgq entry with
    | false =>
      rw [unpopulate]
      simpa [hval] using ih irq hret htail
    | true =>
      have hret' : 0 ≤ (switch entry).1.getD ret := by
        cases hsw : (switch entry).1 with
        | none => exact hret
        | some r => exact h entry mem_cons_self hval r hsw
      rw [unpopulate, if_neg (by simp [hval])]
      simp only [Int.not_lt.mpr hret', if_false]
      obtain ⟨hrest, hrs⟩ := ih ((switch entry).2.getD irq) hret' htail
      refine ⟨hrest, ?_⟩
      rw [hrs]
      cases hsome : (switch entry).1.isSome <;> simp [hval, hsome]

section
variable (hval : cfg.isValidDblMsgq entry = true) (hok : cfg.resOk entry = true)
include hval hok

theorem resOk.linuxIrq_ne_zero (htype : entry.resType = .mqTx ∨ entry.resType = .mqRx ∨ entry.resType = .dbRx) :
    entry.linuxIrq ≠ 0 := by
  intro hzero
  have hret : 0 ≤ cfg.populateRet entry := by
    have hboth : 0 ≤ entry.linuxIrq ∧ 0 ≤ cfg.populateRet entry := by simpa [resOk, hval] using hok
    exact hboth.2
  rcases htype with htype | htype | htype <;>
    · simp [populateRet, populateRes, htype, hzero] at hret
      exact absurd hret (by decide)

theorem resetTarget_nonneg : ∀ r ∈ (cfg.resetTarget entry).1, 0 ≤ r := by
  have hirq := resOk.linuxIrq_ne_zero hval hok
  intro r hr
  unfold resetTarget resetRes at hr
  cases htype : entry.resType with
  | mqTx => simp_all
  | mqRx => simp_all
  | dbRx => simp_all
  | dbTx => simp_all
  | vcpu => simp_all
  | virtioMmio => simp_all
  | vpmgrp =>
    cases hrs : cfg.vpmGrpReset <;> simp_all
  | watchdog =>
    cases hwdog : cfg.wdogManage <;> simp_all
  | unknown t =>
    simp [resOk, populateRet, populateRes, htype, hval] at hok
    exact absurd hok.2 (by decide)

end

section
variable (h : ∀ e ∈ targets, cfg.resOk e = true)
include h

/-- What the rollback resets. -/
theorem mem_rollback_reset :
    entry ∈ (cfg.ghRmUnpopulateTargetHypRes all targets).reset ↔
      (entry ∈ targets ∧ cfg.isValidDblMsgq entry = true ∧ (cfg.resetTarget entry).1.isSome = true) ∨
        (entry ∈ all ∧ entry.resType = .vcpu ∧ cfg.vcpuAffinityReset = some .proxySched) := by
  obtain ⟨hret, hrs⟩ := unpopulate_reset cfg.resetTarget (-1) (Int.le_refl 0)
    fun e he hval => resetTarget_nonneg hval (h e he)
  -- the second loop resets the vCPUs
  have hswitch : ∀ e ∈ all.filter fun e => e.resType = .vcpu ∧ cfg.vcpuAffinityReset.isSome = true,
      (cfg.resetRes e).1 = some 0 := by
    intro e he
    obtain ⟨-, hvcpu⟩ := mem_filter.mp he
    obtain ⟨htype, hfn⟩ := of_decide_eq_true hvcpu
    obtain ⟨d, hd⟩ := Option.isSome_iff_exists.mp hfn
    cases d <;> simp [resetRes, htype, hd]
  have hnn : ∀ e ∈ all.filter fun e => e.resType = .vcpu ∧ cfg.vcpuAffinityReset.isSome = true,
      cfg.isValidDblMsgq e = true → ∀ r ∈ (cfg.resetRes e).1, 0 ≤ r := by
    intro e he _ r hr
    rw [hswitch e he] at hr
    cases hr
    exact Int.le_refl 0
  obtain ⟨-, hvc⟩ :=
    unpopulate_reset cfg.resetRes (cfg.unpopulate cfg.resetTarget 0 (-1) targets).irq hret hnn
  rw [ghRmUnpopulateTargetHypRes, if_neg (Int.not_lt.mpr hret)]
  simp only [hrs, hvc, mem_append, mem_filter, decide_eq_true_eq]
  refine or_congr Iff.rfl ?_
  split_ifs with hdrv
  · have hfn : cfg.vcpuAffinityReset.isSome = true := by rw [hdrv]; rfl
    rw [mem_filter, mem_filter, decide_eq_true_eq, decide_eq_true_eq]
    refine ⟨fun hmem => ⟨hmem.1.1, hmem.1.2.1, hdrv⟩, fun hmem => ⟨⟨hmem.1, hmem.2.1, hfn⟩, ?_, ?_⟩⟩
    · simp [isValidDblMsgq, hmem.2.1]
    · rw [hswitch entry (mem_filter.mpr ⟨hmem.1, decide_eq_true ⟨hmem.2.1, hfn⟩⟩)]
      rfl
  · simp [hdrv]

theorem holdsVcpu.mem_rollback (hmem : entry ∈ all) (hhs : cfg.holdsVcpu entry = true) :
    entry ∈ (cfg.ghRmUnpopulateTargetHypRes all targets).reset ↔ cfg.vcpuAffinityReset = some .proxySched := by
  obtain ⟨hvcpu, -⟩ := of_decide_eq_true hhs
  rw [mem_rollback_reset h]
  simp [hmem, hvcpu, resetTarget]

theorem holds.mem_rollback (hmem : entry ∈ targets) (hhs : cfg.holds entry = true) :
    entry ∈ (cfg.ghRmUnpopulateTargetHypRes all targets).reset ↔
      (entry.resType = .vpmgrp → cfg.vpmGrpReset = true) := by
  obtain ⟨hval, hset, hmmio, -⟩ := of_decide_eq_true hhs
  rw [mem_rollback_reset h]
  simp only [hmem, hval, true_and]
  unfold populateRes at hset
  unfold resetTarget resetRes
  cases htype : entry.resType with
  | mqTx => by_cases hirq : entry.linuxIrq = 0 <;> simp [hirq]
  | mqRx => by_cases hirq : entry.linuxIrq = 0 <;> simp [hirq]
  | dbRx => by_cases hirq : entry.linuxIrq = 0 <;> simp [hirq]
  | dbTx => simp
  | vcpu => simp [htype] at hset
  | virtioMmio => exact absurd htype hmmio
  | vpmgrp => cases cfg.vpmGrpReset <;> simp
  | watchdog =>
    have hwdog : cfg.wdogManage = true := by
      by_contra hnone
      simp [htype, hnone] at hset
    simp [hwdog]
  | unknown t => simp

end

theorem lastRet_eq_zero :
    cfg.lastRet (cfg.vcpuPass 0 entries).ret entries = 0 ↔
      ∀ e ∈ (entries.filter fun e => cfg.isValidDblMsgq e).getLast?, cfg.populateRet e = 0 := by
  unfold lastRet
  cases hlast : (entries.filter fun e => cfg.isValidDblMsgq e).getLast? with
  | some e => simp
  | none =>
    -- a vCPU would be an entry of the second pass too
    have hnone : ∀ e ∈ entries, e.resType ≠ .vcpu := by
      intro e he hvcpu
      have hemp := getLast?_eq_none_iff.mp hlast
      exact filter_eq_nil_iff.mp hemp e he (by simp [isValidDblMsgq, hvcpu])
    simp [vcpuPass_ret hnone]

theorem sound_of_failed {result : Populated} (hret : result.ret < 0) (hfl : result.complete = false) :
    Sound result ↔ result.held = [] := by
  simp [Sound, hret, hfl]

theorem populate_of_vcpus (h : entries.dropWhile cfg.vcpuOk = []) :
    cfg.ghRmPopulateHypRes entries =
      cfg.resPass entries [] (entries.filter cfg.holdsVcpu) (cfg.vcpuPass 0 entries).ret entries := by
  obtain ⟨hheld, hcomp, -⟩ := vcpuPass_eq 0 entries
  have hall : entries.takeWhile cfg.vcpuOk = entries := by
    have happend := takeWhile_append_dropWhile (p := cfg.vcpuOk) (l := entries)
    rwa [h, append_nil] at happend
  rw [ghRmPopulateHypRes, if_neg (by simp [hcomp.mpr h]), hheld, hall]

theorem sound_of_vcpu_failed (h : entries.dropWhile cfg.vcpuOk = entry :: rest) :
    Sound (cfg.ghRmPopulateHypRes entries) ↔ ∀ e ∈ entries.takeWhile cfg.vcpuOk, cfg.holdsVcpu e = false := by
  obtain ⟨hheld, hcomp, hneg⟩ := vcpuPass_eq 0 entries
  have hfl : (cfg.vcpuPass 0 entries).complete = false := by
    rw [← Bool.not_eq_true, hcomp, h]
    exact cons_ne_nil entry rest
  rw [ghRmPopulateHypRes, if_pos hfl, sound_of_failed (hneg hfl) hfl, hheld]
  simp

/-- A failure in the second pass. -/
theorem sound_of_res_failed (hvc : entries.dropWhile cfg.vcpuOk = [])
    (h : entries.dropWhile cfg.resOk = entry :: rest) :
    Sound (cfg.ghRmPopulateHypRes entries) ↔
      if entry.linuxIrq < 0 then
        (∀ e ∈ entries, cfg.holdsVcpu e = false) ∧ ∀ e ∈ entries.takeWhile cfg.resOk, cfg.holds e = false
      else
        (∀ e ∈ entries, cfg.holdsVcpu e = true → cfg.vcpuAffinityReset = some .proxySched) ∧
          ∀ e ∈ entries.takeWhile cfg.resOk, cfg.holds e = true → e.resType = .vpmgrp → cfg.vpmGrpReset = true := by
  obtain ⟨hfl, hret, hheld⟩ := resPass_spec h
  rw [populate_of_vcpus hvc, sound_of_failed hret hfl, hheld]
  split_ifs
  · simp [filter_eq_nil_iff]
  · have hok : ∀ e ∈ [] ++ entries.takeWhile cfg.resOk, cfg.resOk e = true :=
      fun e he => mem_takeWhile_imp he
    simp only [filter_eq_nil_iff, decide_eq_true_eq, not_not, forall_mem_append, mem_filter, and_imp]
    refine and_congr (forall₃_congr fun e he hhs => ?_) (forall₃_congr fun e he hhs => ?_)
    · exact holdsVcpu.mem_rollback hok he hhs
    · exact holds.mem_rollback hok he hhs

theorem sound_of_complete (hvc : entries.dropWhile cfg.vcpuOk = []) (h : entries.dropWhile cfg.resOk = []) :
    Sound (cfg.ghRmPopulateHypRes entries) ↔
      ∀ e ∈ (entries.filter fun e => cfg.isValidDblMsgq e).getLast?, cfg.populateRet e = 0 := by
  rw [populate_of_vcpus hvc, show cfg.resPass .. = _ from resPass_spec h, ← lastRet_eq_zero]
  refine ⟨fun hso => hso.2 rfl, fun hzero => ⟨fun hneg => ?_, fun _ => hzero⟩⟩
  exact absurd hzero (Int.ne_of_lt hneg)

end RmConfig

end VendorKernel.Gunyah
