import VendorKernel.Gunyah.HypRes
import VendorKernel.Gunyah.MsgqFlags

/-! The table of the message queues: what a failed `gh_msgq_populate_cap_info` leaves of it. -/
namespace VendorKernel.Gunyah

open List Function Option

def ENOMEM : ℤ := 12

structure CapEntry where
  label : ℤ
  clientDesc : Option ℕ
  capId : Direction → Option ℕ
  irq : Direction → ℤ

structure CapEnv where
  alloc : Bool
  requestIrq : ℤ

/-- The second half, for the first entry with the label; no direction is an invalid one. -/
def requestAndBind (table : List CapEntry) (label : ℤ) (capId : ℕ) (direction : Option Direction) (irq : ℤ)
    (env : CapEnv) : ℤ × List CapEntry :=
  match direction with
  | some d =>
    if env.requestIrq < 0 then (env.requestIrq, table.eraseP (·.label = label))
    else
      (0, table.modify (table.findIdx (·.label = label)) fun entry =>
        { entry with capId := update entry.capId d capId, irq := update entry.irq d irq })
  | none => (-EINVAL, table.eraseP (·.label = label))

/-- `minMsgq` is `GUNYAH_QCOM_MIN_MSGQ`, which depends on the configuration. -/
def ghMsgqPopulateCapInfo (minMsgq : ℤ) (table : List CapEntry) (label : ℤ) (capId : ℕ)
    (direction : Option Direction) (irq : ℤ) (env : CapEnv) : ℤ × List CapEntry :=
  if label < minMsgq then (-EINVAL, table)
  else if irq < 0 then (- ENXIO, table)
  else
    match table.find? (·.label = label) with
    | some entry =>
      if direction.any fun d => (entry.capId d).isNone then requestAndBind table label capId direction irq env
      else (-EINVAL, table)
    | none =>
      -- `gh_msgq_alloc_entry` puts the new entry first
      if env.alloc then
        requestAndBind (⟨label, none, fun _ => none, fun _ => 0⟩ :: table) label capId direction irq env
      else (-ENOMEM, table)

theorem eraseP_ne_of_find? {table : List CapEntry} {p : CapEntry → Bool} {entry : CapEntry}
    (h : table.find? p = some entry) : table.eraseP p ≠ table := by
  intro hsame
  have hlen := length_eraseP_of_mem (mem_of_find?_eq_some h) (find?_some h)
  have hpos := length_pos_of_mem (mem_of_find?_eq_some h)
  rw [hsame] at hlen
  omega

/-- The clean-up also takes an entry that was there before the call. -/
theorem populate_error_keeps_table_iff (minMsgq : ℤ) (table : List CapEntry) (label : ℤ) (capId : ℕ)
    (direction : Option Direction) (irq : ℤ) (env : CapEnv) :
    ((ghMsgqPopulateCapInfo minMsgq table label capId direction irq env).1 ≠ 0 →
        (ghMsgqPopulateCapInfo minMsgq table label capId direction irq env).2 = table) ↔
      (minMsgq ≤ label → 0 ≤ irq → ∀ entry ∈ table.find? (·.label = label), ∀ d ∈ direction,
        entry.capId d = none → 0 ≤ env.requestIrq) := by
  fun_cases ghMsgqPopulateCapInfo minMsgq table label capId direction irq env with
  | case1 hlabel => exact iff_of_true (fun _ => rfl) fun hle => absurd hlabel (Int.not_lt.mpr hle)
  | case2 _ hirq => exact iff_of_true (fun _ => rfl) fun _ hle => absurd hirq (Int.not_lt.mpr hle)
  | case3 hlabel hirq entry hfind hopen =>
    cases direction with
    | none => cases hopen
    | some d =>
      have hnone : entry.capId d = none := isNone_iff_eq_none.mp hopen
      have her := eraseP_ne_of_find? hfind
      by_cases hret : env.requestIrq < 0
      · have hne := Int.ne_of_lt hret
        simp [requestAndBind, hret, hne, hfind, her, hnone, Int.not_lt.mp hlabel, Int.not_lt.mp hirq]
      · simp [requestAndBind, hret, Int.not_lt.mp hret]
  | case4 _ _ entry hfind hopen =>
    refine iff_of_true (fun _ => rfl) fun _ _ entry' hey d hd hnone => absurd ?_ hopen
    obtain rfl := some.inj (hfind.symm.trans hey)
    rw [hd, any_some, hnone]
    rfl
  | case5 _ _ hfind =>
    refine iff_of_true ?_ fun _ _ entry hey => absurd (hfind.symm.trans hey) nofun
    cases direction with
    | none => simp [requestAndBind]
    | some d => by_cases hret : env.requestIrq < 0 <;> simp [requestAndBind, hret]
  | case6 _ _ hfind =>
    exact iff_of_true (fun _ => rfl) fun _ _ entry hey => absurd (hfind.symm.trans hey) nofun

/-- The entry of a registered client whose receiving side is in use is freed. -/
theorem populate_error_drops_client :
    ((ghMsgqPopulateCapInfo 0x101
      [⟨0x101, some 1, fun d => if d = .rx then some 7 else none, fun d => if d = .rx then 30 else 0⟩]
      0x101 8 (some .tx) 31 ⟨true, -16⟩).map id (·.length)) = (-16, 0) := by
  decide

end VendorKernel.Gunyah
