import VendorKernel.Lib.Machine
import VendorKernel.Rpmh.Tcs

/-! Active requests in flight: any number of threads in `rpmh_rsc_send_data`, the hardware and the
interrupt handler `tcs_tx_done`, on one group of TCSes. -/
namespace VendorKernel.Rpmh

open Machine Function TcsGroup List Option Nat

def TcsGroup.addrs (g : TcsGroup) (m : ℕ) : List UInt32 :=
  ((range g.ncpt).filter fun j => g.cmdEnable m j).map (g.cmdAddr m)

/-- Where the holder of `drv->lock` is in `rpmh_rsc_send_data`: it has a TCS, has written its registers, has
triggered it. -/
inductive SendPlace where
  | idle
  | claimed (m : ℕ) (msg : TcsRequest)
  | programmed (m : ℕ) (msg : TcsRequest)
  | triggered (m : ℕ) (msg : TcsRequest)

structure InflightSys where
  tcs : TcsGroup
  /-- The group is of wake TCSes, borrowed for active requests. -/
  borrowed : Bool
  sender : SendPlace
  /-- The hardware: the addresses in the TCSes that are triggered and not completed. -/
  inflight : ℕ → Option (List UInt32)
  /-- Not in the source: the request that each TCS was last triggered with. -/
  sent : ℕ → Option TcsRequest
  irqEnable : ℕ → Bool
  irqStatus : ℕ → Bool
  handling : List ℕ
  reclaimed : Bool

inductive InflightOp where
  | claim (msg : TcsRequest)
  | send
  /-- The hardware completes a TCS, and its bit in `RSC_DRV_IRQ_STATUS` is set or not. -/
  | complete (m : ℕ) (raised : Bool)
  | irq
  | txDone

namespace InflightSys

def start (numTcs ncpt : ℕ) (borrowed : Bool) : InflightSys :=
  { tcs := .empty numTcs ncpt, borrowed := borrowed, sender := .idle, inflight := fun _ => none,
    sent := fun _ => none, irqEnable := fun _ => !borrowed, irqStatus := fun _ => false, handling := [],
    reclaimed := false }

def sendStep (s : InflightSys) : Option InflightSys :=
  match s.sender with
  | .idle => none
  | .claimed m msg =>
    some { s with
      tcs := s.tcs.program m msg
      irqEnable := update s.irqEnable m (msg.waitForCompl || s.borrowed)
      sender := .programmed m msg }
  | .programmed m msg =>
    some { s with
      inflight := update s.inflight m (some (s.tcs.addrs m))
      sent := update s.sent m (some msg)
      sender := .triggered m msg }
  | .triggered m msg =>
    some { s with tcs := if msg.waitForCompl then s.tcs else s.tcs.release m, sender := .idle }

/-- `tcs_tx_done` for one TCS: the registers first, then `tcs_in_use` with the lock held. -/
def txDoneStep (s : InflightSys) : Option InflightSys :=
  match s.handling with
  | [] => none
  | m :: ms =>
    if s.reclaimed = false then
      some { s with tcs := s.tcs.reclaim m, irqStatus := update s.irqStatus m false, reclaimed := true }
    else
      match s.sender with
      | .idle =>
        some { s with
          tcs := s.tcs.release m
          irqEnable := if s.borrowed then update s.irqEnable m false else s.irqEnable
          handling := ms
          reclaimed := false }
      | _ => none

def step (s : InflightSys) : InflightOp → Option InflightSys
  | .claim msg =>
    match s.sender with
    | .idle =>
      (s.tcs.claimTcsForReq msg fun m => (s.inflight m).isNone).map fun m =>
        { s with sender := .claimed m msg }
    | _ => none
  | .send => s.sendStep
  | .complete m raised =>
    if (s.inflight m).isSome then
      some { s with
        inflight := update s.inflight m none
        irqStatus := update s.irqStatus m (s.irqStatus m || raised) }
    else none
  | .irq =>
    if s.handling = [] then some { s with handling := (range s.tcs.numTcs).filter s.irqStatus }
    else none
  | .txDone => s.txDoneStep

def Conflict (msg : TcsRequest) (addrs : List UInt32) : Prop :=
  ∃ cmd ∈ msg.cmds, ∃ addr ∈ addrs, cmdDbMatchResourceAddr cmd.addr addr = true

instance (msg : TcsRequest) (addrs : List UInt32) : Decidable (Conflict msg addrs) :=
  inferInstanceAs (Decidable (∃ cmd ∈ msg.cmds, ∃ addr ∈ addrs, cmdDbMatchResourceAddr cmd.addr addr = true))

def Exclusive (s : InflightSys) : Prop :=
  ∀ m m' addrs addrs', m ≠ m' → s.inflight m = some addrs → s.inflight m' = some addrs' →
    ∀ addr ∈ addrs, ∀ addr' ∈ addrs', cmdDbMatchResourceAddr addr addr' = false

/-- A request that is not waited for has no completion left and is not in flight to a resource of the message. -/
def OutOfTheWay (s : InflightSys) : InflightOp → Prop
  | .claim msg => ∀ m ∈ range s.tcs.numTcs, ∀ req ∈ s.sent m, req.waitForCompl = false →
    (s.irqStatus m = false ∧ m ∉ s.handling) ∧ ∀ addrs ∈ s.inflight m, ¬Conflict msg addrs
  | _ => True

instance (s : InflightSys) (op : InflightOp) : Decidable (s.OutOfTheWay op) := by
  cases op <;> unfold OutOfTheWay <;> infer_instance

end InflightSys

theorem slaveId_eq (addr : UInt32) : SLAVE_ID addr = VRM_ADDR addr >>> 12 := by
  apply UInt32.toNat.inj
  simp [SLAVE_ID, VRM_ADDR, shiftRight_and_distrib, ← shiftRight_add]

theorem cmdDbMatchResourceAddr_comm {addr addr' : UInt32}
    (h : cmdDbMatchResourceAddr addr addr' = true) : cmdDbMatchResourceAddr addr' addr = true := by
  simp only [cmdDbMatchResourceAddr, decide_eq_true_eq] at h ⊢
  rcases h with rfl | ⟨hslave, hvrm⟩
  · exact .inl rfl
  · refine .inr ⟨?_, hvrm.symm⟩
    rw [slaveId_eq, ← hvrm, ← slaveId_eq]
    exact hslave

namespace TcsGroup

variable {g : TcsGroup} {msg : TcsRequest} {m m' : ℕ} {addr : UInt32} {idle : ℕ → Bool}

theorem mem_addrs : addr ∈ g.addrs m ↔ ∃ j < g.ncpt, g.cmdEnable m j = true ∧ g.cmdAddr m j = addr := by
  simp [addrs, and_assoc]

theorem checkForReqInflight_eq_false (h : g.checkForReqInflight msg = false) (hm : m < g.numTcs)
    (huse : g.inUse m = true) : ¬InflightSys.Conflict msg (g.addrs m) := by
  rintro ⟨cmd, hcmd, addr, haddr, hma⟩
  obtain ⟨j, hj, hen, rfl⟩ := mem_addrs.mp haddr
  simp only [checkForReqInflight, decide_eq_false_iff_not] at h
  exact h ⟨m, mem_range.mpr hm, huse, j, mem_range.mpr hj, hen, cmd, hcmd, hma⟩

theorem findFreeTcs_some (h : g.findFreeTcs idle = some m) : m < g.numTcs ∧ g.inUse m = false ∧ idle m = true := by
  unfold findFreeTcs at h
  split at h
  · cases h
  · next found hfd =>
    split_ifs at h with hidle
    cases h
    have hfree := find?_some hfd
    exact ⟨mem_range.mp (mem_of_find?_eq_some hfd), of_decide_eq_true hfree, hidle⟩

theorem claimTcsForReq_some (h : g.claimTcsForReq msg idle = some m) :
    g.checkForReqInflight msg = false ∧ m < g.numTcs ∧ g.inUse m = false ∧ idle m = true := by
  unfold claimTcsForReq at h
  split_ifs at h with hch
  exact ⟨Bool.eq_false_iff.mpr hch, findFreeTcs_some h⟩

theorem mem_addrs_program (h : addr ∈ (g.program m msg).addrs m) : ∃ cmd ∈ msg.cmds, cmd.addr = addr := by
  obtain ⟨j, -, hen, rfl⟩ := mem_addrs.mp h
  simp only [program, tcsBufferWrite, update_self, Bool.false_or, if_true] at hen ⊢
  obtain ⟨cmd, hcmd⟩ := isSome_iff_exists.mp hen
  rw [hcmd]
  exact ⟨cmd, mem_of_getElem? (by simpa [placed] using hcmd), rfl⟩

theorem addrs_reclaim_of_ne (h : m' ≠ m) : (g.reclaim m).addrs m' = g.addrs m' := by
  simp [addrs, reclaim, h]

theorem inUse_of_release (h : (g.release m).inUse m' = true) : g.inUse m' = true := by
  by_cases hm : m' = m
  · subst hm
    simp [release] at h
  · simpa [release, hm] using h

end TcsGroup

namespace InflightSys

variable {s s' : InflightSys} {msg : TcsRequest} {m : ℕ}

structure Ready (s : InflightSys) (m : ℕ) (msg : TcsRequest) : Prop where
  lt : m < s.tcs.numTcs
  quiet : s.inflight m = none
  handled : s.irqStatus m = false ∧ m ∉ s.handling
  clear : ∀ m' addrs, s.inflight m' = some addrs → ¬Conflict msg addrs

def Sending (s : InflightSys) : SendPlace → Prop
  | .idle => True
  | .claimed m msg => s.Ready m msg
  | .programmed m msg =>
    s.Ready m msg ∧ s.tcs.inUse m = true ∧ ∀ addr ∈ s.tcs.addrs m, ∃ cmd ∈ msg.cmds, cmd.addr = addr
  | .triggered m msg => s.sent m = some msg

/-- From the trigger until the interrupt handler is through with the completion. -/
def Pending (s : InflightSys) (m : ℕ) : Prop := s.inflight m ≠ none ∨ s.irqStatus m = true ∨ m ∈ s.handling

structure Inv (s : InflightSys) : Prop where
  exclusive : s.Exclusive
  lt : ∀ m addrs, s.inflight m = some addrs → m < s.tcs.numTcs
  loaded : ∀ m addrs, s.inflight m = some addrs → s.tcs.inUse m = true → addrs = s.tcs.addrs m
  done : ∀ m, s.irqStatus m = true ∨ m ∈ s.handling → s.inflight m = none
  marked : ∀ m, s.Pending m → ∃ req, s.sent m = some req ∧ (req.waitForCompl = true → s.tcs.inUse m = true)
  nodup : s.handling.Nodup
  cleared : s.reclaimed = true → ∃ m ∈ s.handling.head?, s.irqStatus m = false
  sending : s.Sending s.sender

theorem inv_start (numTcs ncpt : ℕ) (borrowed : Bool) : (start numTcs ncpt borrowed).Inv where
  exclusive := by
    intro m m' addrs addrs' _ hm
    cases hm
  lt := by
    intro m addrs hm
    cases hm
  loaded := by
    intro m addrs hm
    cases hm
  done _ _ := rfl
  marked m hm := by simp [Pending, start] at hm
  nodup := nodup_nil
  cleared := nofun
  sending := trivial

/-- A step that takes requests out of flight and completions away. -/
theorem Ready.mono (h : s.Ready m msg) (hnum : s'.tcs.numTcs = s.tcs.numTcs)
    (hfly : ∀ m addrs, s'.inflight m = some addrs → s.inflight m = some addrs)
    (hdone : s'.irqStatus m = false ∧ m ∉ s'.handling) : s'.Ready m msg where
  lt := by
    rw [hnum]
    exact h.lt
  quiet := by
    cases hm : s'.inflight m with
    | none => rfl
    | some addrs =>
      have hold := hfly m addrs hm
      rw [h.quiet] at hold
      cases hold
  handled := hdone
  clear m' addrs hm := h.clear m' addrs (hfly m' addrs hm)

section
variable (h : s.Inv)
include h

/-- A TCS without a mark is in the way only of nothing: what is pending there is not waited for. -/
theorem Inv.quiet (hway : s.OutOfTheWay (.claim msg)) (hlt : m < s.tcs.numTcs) (hfree : s.tcs.inUse m = false) :
    (s.irqStatus m = false ∧ m ∉ s.handling) ∧ ∀ addrs ∈ s.inflight m, ¬Conflict msg addrs := by
  by_cases hpend : s.Pending m
  · obtain ⟨req, hsent, hwait⟩ := h.marked m hpend
    have hforget : req.waitForCompl = false := by
      by_contra hne
      rw [hwait (Bool.not_eq_false _ ▸ hne)] at hfree
      cases hfree
    exact hway m (mem_range.mpr hlt) req hsent hforget
  · simp only [Pending, not_or, not_not, Bool.not_eq_true] at hpend
    obtain ⟨hnone, hquiet⟩ := hpend
    refine ⟨hquiet, fun addrs hm => ?_⟩
    rw [hnone] at hm
    cases hm

theorem Inv.claim (hway : s.OutOfTheWay (.claim msg)) (hs : s.step (.claim msg) = some s') : s'.Inv := by
  simp only [step] at hs
  split at hs
  · obtain ⟨m, hclaim, rfl⟩ := map_eq_some_iff.mp hs
    obtain ⟨hch, hlt, hfree, hidle⟩ := claimTcsForReq_some hclaim
    refine { h with sending := ⟨hlt, ?_, ?_, ?_⟩ }
    · exact isNone_iff_eq_none.mp hidle
    · exact (h.quiet hway hlt hfree).1
    · intro m' addrs hm'
      have hlt' := h.lt m' addrs hm'
      -- the check sees the TCSes that are marked, the others are out of the way
      cases huse : s.tcs.inUse m' with
      | false => exact (h.quiet hway hlt' huse).2 addrs hm'
      | true =>
        rw [h.loaded m' addrs hm' huse]
        exact checkForReqInflight_eq_false hch hlt' huse
  · cases hs

theorem Inv.program (hsnd : s.sender = .claimed m msg) (hs : s.sendStep = some s') : s'.Inv := by
  have hrdy : s.Ready m msg := by simpa [hsnd, Sending] using h.sending
  simp only [sendStep, hsnd] at hs
  cases hs
  refine { h with loaded := ?_, marked := ?_, sending := ⟨{ hrdy with }, ?_, ?_⟩ }
  · intro m' addrs hm' huse
    have hne : m' ≠ m := by
      rintro rfl
      rw [hrdy.quiet] at hm'
      cases hm'
    have hloaded := h.loaded m' addrs hm' (by simpa [program, tcsBufferWrite, hne] using huse)
    simpa [TcsGroup.addrs, program, tcsBufferWrite, hne] using hloaded
  · intro m' hm'
    obtain ⟨req, hsent, hwait⟩ := h.marked m' hm'
    refine ⟨req, hsent, fun hw => ?_⟩
    by_cases hne : m' = m
    · simp [program, tcsBufferWrite, hne]
    · simpa [program, tcsBufferWrite, hne] using hwait hw
  · simp [program, tcsBufferWrite]
  · exact fun addr haddr => mem_addrs_program haddr

/-- A TCS is triggered with nothing in its way. -/
theorem Inv.trigger (hsnd : s.sender = .programmed m msg) (hs : s.sendStep = some s') : s'.Inv := by
  obtain ⟨hrdy, huse, hhs⟩ : s.Ready m msg ∧ s.tcs.inUse m = true ∧
      ∀ addr ∈ s.tcs.addrs m, ∃ cmd ∈ msg.cmds, cmd.addr = addr := by
    simpa [hsnd, Sending] using h.sending
  -- what the TCS holds does not match anything in flight
  have hnew : ∀ m' addrs, s.inflight m' = some addrs → ∀ addr ∈ s.tcs.addrs m, ∀ addr' ∈ addrs,
      cmdDbMatchResourceAddr addr addr' = false := by
    intro m' addrs hm' addr haddr addr' haddr'
    obtain ⟨cmd, hcmd, rfl⟩ := hhs addr haddr
    refine Bool.eq_false_iff.mpr fun hma => ?_
    exact hrdy.clear m' addrs hm' ⟨cmd, hcmd, addr', haddr', hma⟩
  simp only [sendStep, hsnd] at hs
  cases hs
  have hcs : ∀ m' addrs, update s.inflight m (some (s.tcs.addrs m)) m' = some addrs →
      m' = m ∧ addrs = s.tcs.addrs m ∨ m' ≠ m ∧ s.inflight m' = some addrs := by
    intro m' addrs hm'
    by_cases hne : m' = m
    · subst hne
      rw [update_self] at hm'
      exact .inl ⟨rfl, (some.inj hm').symm⟩
    · rw [update_of_ne hne] at hm'
      exact .inr ⟨hne, hm'⟩
  refine ⟨?_, ?_, ?_, ?_, ?_, h.nodup, h.cleared, update_self ..⟩
  · intro m₁ m₂ addrs₁ addrs₂ hne h₁ h₂ addr₁ ha₁ addr₂ ha₂
    rcases hcs m₁ addrs₁ h₁ with ⟨rfl, rfl⟩ | ⟨-, hold₁⟩ <;>
      rcases hcs m₂ addrs₂ h₂ with ⟨rfl, rfl⟩ | ⟨-, hold₂⟩
    · exact absurd rfl hne
    · exact hnew m₂ addrs₂ hold₂ addr₁ ha₁ addr₂ ha₂
    · refine Bool.eq_false_iff.mpr fun hma => ?_
      have hsymm := cmdDbMatchResourceAddr_comm hma
      rw [hnew m₁ addrs₁ hold₁ addr₂ ha₂ addr₁ ha₁] at hsymm
      cases hsymm
    · exact h.exclusive m₁ m₂ addrs₁ addrs₂ hne hold₁ hold₂ addr₁ ha₁ addr₂ ha₂
  · intro m' addrs hm'
    rcases hcs m' addrs hm' with ⟨rfl, -⟩ | ⟨-, hm'⟩
    · exact hrdy.lt
    · exact h.lt m' addrs hm'
  · intro m' addrs hm' huse
    rcases hcs m' addrs hm' with ⟨rfl, had⟩ | ⟨-, hm'⟩
    · exact had
    · exact h.loaded m' addrs hm' huse
  · intro m' hm'
    have hne : m' ≠ m := by
      rintro rfl
      rcases hm' with hstatus | hmem
      · exact absurd hstatus (by simp [hrdy.handled.1])
      · exact hrdy.handled.2 hmem
    simpa [hne] using h.done m' hm'
  · intro m' hm'
    by_cases hne : m' = m
    · exact ⟨msg, by simp [hne], fun _ => hne ▸ huse⟩
    · simp only [Pending, update_of_ne hne] at hm' ⊢
      exact h.marked m' hm'

theorem Inv.finish (hsnd : s.sender = .triggered m msg) (hs : s.sendStep = some s') : s'.Inv := by
  have hsent : s.sent m = some msg := by simpa [hsnd, Sending] using h.sending
  simp only [sendStep, hsnd] at hs
  cases hs
  cases hwait : msg.waitForCompl with
  | true => exact { h with sending := trivial }
  | false =>
    refine { h with loaded := fun m' addrs hm' huse => h.loaded m' addrs hm' (inUse_of_release huse)
                    marked := fun m' hm' => ?_, sending := trivial }
    obtain ⟨req, hreq, huse⟩ := h.marked m' hm'
    refine ⟨req, hreq, fun hw => ?_⟩
    have hne : m' ≠ m := by
      rintro rfl
      rw [hsent] at hreq
      cases hreq
      rw [hwait] at hw
      cases hw
    simpa [release, hne] using huse hw

theorem Inv.send (hs : s.sendStep = some s') : s'.Inv := by
  cases hsnd : s.sender with
  | idle => simp [sendStep, hsnd] at hs
  | claimed m msg => exact h.program hsnd hs
  | programmed m msg => exact h.trigger hsnd hs
  | triggered m msg => exact h.finish hsnd hs

theorem Inv.mono (hnum : s'.tcs.numTcs = s.tcs.numTcs) (hsent : s'.sent = s.sent)
    (hfly : ∀ m addrs, s'.inflight m = some addrs → s.inflight m = some addrs)
    (hloaded : ∀ m addrs, s'.inflight m = some addrs → s'.tcs.inUse m = true →
      s.tcs.inUse m = true ∧ s'.tcs.addrs m = s.tcs.addrs m)
    (hdone : ∀ m, s'.irqStatus m = true ∨ m ∈ s'.handling → s'.inflight m = none)
    (hpend : ∀ m, s'.Pending m → s.Pending m ∧ (s.tcs.inUse m = true → s'.tcs.inUse m = true))
    (hnodup : s'.handling.Nodup) (hcleared : s'.reclaimed = true → ∃ m ∈ s'.handling.head?, s'.irqStatus m = false)
    (hsending : s'.Sending s'.sender) : s'.Inv where
  exclusive m m' addrs addrs' hne hm hm' :=
    h.exclusive m m' addrs addrs' hne (hfly m addrs hm) (hfly m' addrs' hm')
  lt m addrs hm := by
    rw [hnum]
    exact h.lt m addrs (hfly m addrs hm)
  loaded m addrs hm huse := by
    obtain ⟨hold, had⟩ := hloaded m addrs hm huse
    rw [had]
    exact h.loaded m addrs (hfly m addrs hm) hold
  done := hdone
  marked m hm := by
    obtain ⟨hold, hkeep⟩ := hpend m hm
    obtain ⟨req, hreq, hwait⟩ := h.marked m hold
    exact ⟨req, hsent ▸ hreq, fun hw => hkeep (hwait hw)⟩
  nodup := hnodup
  cleared := hcleared
  sending := hsending

end

theorem Sending.mono {place : SendPlace} (h : s.Sending place) (hnum : s'.tcs.numTcs = s.tcs.numTcs)
    (hsent : s'.sent = s.sent) (huse : s'.tcs.inUse = s.tcs.inUse)
    (hfly : ∀ m addrs, s'.inflight m = some addrs → s.inflight m = some addrs)
    (hqt : ∀ m, s.inflight m = none → s.irqStatus m = false ∧ m ∉ s.handling →
      (s'.irqStatus m = false ∧ m ∉ s'.handling) ∧ s'.tcs.addrs m = s.tcs.addrs m) :
    s'.Sending place := by
  cases place with
  | idle => trivial
  | triggered m msg => exact (congrFun hsent m).trans h
  | claimed m msg =>
    have hrdy : s.Ready m msg := h
    exact hrdy.mono hnum hfly (hqt m hrdy.quiet hrdy.handled).1
  | programmed m msg =>
    obtain ⟨hrdy, hmark, hhs⟩ := h
    obtain ⟨hhd, had⟩ := hqt m hrdy.quiet hrdy.handled
    refine ⟨hrdy.mono hnum hfly hhd, huse ▸ hmark, ?_⟩
    rw [had]
    exact hhs

/-- The hardware is done with a TCS. -/
theorem Inv.complete (h : s.Inv) {raised : Bool} (hs : s.step (.complete m raised) = some s') :
    s'.Inv := by
  simp only [step] at hs
  split_ifs at hs with hsome
  cases hs
  have hfly : ∀ m' addrs, update s.inflight m none m' = some addrs → s.inflight m' = some addrs := by
    intro m' addrs hm'
    by_cases hne : m' = m
    · subst hne
      simp at hm'
    · simpa [hne] using hm'
  refine h.mono rfl rfl hfly (fun m' _ _ huse => ⟨huse, rfl⟩) ?_ ?_ h.nodup ?_ (h.sending.mono rfl rfl rfl hfly ?_)
  · intro m' hm'
    by_cases hne : m' = m
    · subst hne
      exact update_self ..
    · simp only [update_of_ne hne] at hm' ⊢
      exact h.done m' hm'
  · intro m' hm'
    refine ⟨?_, id⟩
    by_cases hne : m' = m
    · subst hne
      exact .inl (isSome_iff_ne_none.mp hsome)
    · simpa [Pending, hne] using hm'
  · intro hrec
    obtain ⟨m', hm', hclr⟩ := h.cleared hrec
    have hne : m' ≠ m := by
      rintro rfl
      simp [h.done m' (.inr (mem_of_mem_head? hm'))] at hsome
    exact ⟨m', hm', by simpa [hne] using hclr⟩
  · intro m' hqt hhd
    have hne : m' ≠ m := by
      rintro rfl
      simp [hqt] at hsome
    simpa [hne] using hhd

theorem Inv.irq (h : s.Inv) (hs : s.step .irq = some s') : s'.Inv := by
  simp only [step] at hs
  split_ifs at hs with hnil
  cases hs
  have hmem : ∀ m, m ∈ (range s.tcs.numTcs).filter s.irqStatus → s.irqStatus m = true :=
    fun m hm => (mem_filter.mp hm).2
  refine h.mono rfl rfl (fun _ _ hm => hm) (fun _ _ _ huse => ⟨huse, rfl⟩) ?_ ?_ (nodup_range.filter _) ?_
    (h.sending.mono rfl rfl rfl (fun _ _ hm => hm) ?_)
  · rintro m (hm | hm)
    · exact h.done m (.inl hm)
    · exact h.done m (.inl (hmem m hm))
  · rintro m (hm | hm | hm)
    · exact ⟨.inl hm, id⟩
    · exact ⟨.inr (.inl hm), id⟩
    · exact ⟨.inr (.inl (hmem m hm)), id⟩
  · intro hrec
    obtain ⟨m, hm, -⟩ := h.cleared hrec
    simp [hnil] at hm
  · intro m _ hhd
    refine ⟨⟨hhd.1, fun hm => ?_⟩, rfl⟩
    exact absurd (hmem m hm) (by simp [hhd.1])

/-- The handler frees the TCS of a completion. -/
theorem Inv.txDone (h : s.Inv) (hs : s.txDoneStep = some s') : s'.Inv := by
  revert hs
  fun_cases txDoneStep s with
  | case1 | case4 => exact nofun
  | case2 m ms hlist hrec =>
    rintro ⟨⟩
    have hhead : m ∈ s.handling := by simp [hlist]
    have hstatus : ∀ m', update s.irqStatus m false m' = true → s.irqStatus m' = true := by
      intro m' hm'
      by_cases hne : m' = m
      · subst hne
        simp at hm'
      · simpa [hne] using hm'
    refine h.mono rfl rfl (fun _ _ hm => hm) ?_ ?_ ?_ h.nodup ?_ (h.sending.mono rfl rfl rfl (fun _ _ hm => hm) ?_)
    · intro m' addrs hm' huse
      have hne : m' ≠ m := by
        rintro rfl
        rw [show s.inflight m' = none from h.done m' (.inr hhead)] at hm'
        cases hm'
      exact ⟨huse, addrs_reclaim_of_ne hne⟩
    · rintro m' (hm' | hm')
      · exact h.done m' (.inl (hstatus m' hm'))
      · exact h.done m' (.inr hm')
    · exact fun m' hm' => ⟨hm'.imp_right (.imp_left (hstatus m')), id⟩
    · exact fun _ => ⟨m, by simp [hlist], update_self ..⟩
    · intro m' _ hhd
      have hne : m' ≠ m := by
        rintro rfl
        exact hhd.2 hhead
      refine ⟨⟨?_, hhd.2⟩, addrs_reclaim_of_ne hne⟩
      simpa [hne] using hhd.1
  | case3 m ms hlist hrec hidle =>
    rintro ⟨⟩
    have hnodup := h.nodup
    obtain ⟨m₀, hm₀, hclr⟩ := h.cleared (Bool.not_eq_false _ ▸ hrec)
    rw [hlist] at hnodup hm₀
    obtain rfl := some.inj hm₀
    -- Nothing of the TCS that loses its mark is pending any more.
    have hpend : ∀ m', s.inflight m' ≠ none ∨ s.irqStatus m' = true ∨ m' ∈ ms → m' ≠ m := by
      rintro _ (hm' | hm' | hm') rfl
      · exact hm' (h.done _ (.inr (by simp [hlist])))
      · simp [hclr] at hm'
      · exact (nodup_cons.mp hnodup).1 hm'
    refine h.mono rfl rfl (fun _ _ hm => hm) (fun _ _ _ huse => ⟨inUse_of_release huse, rfl⟩) ?_ ?_
      (nodup_cons.mp hnodup).2 nofun (by simp [hidle, Sending])
    · rintro m' (hm' | hm')
      · exact h.done m' (.inl hm')
      · exact h.done m' (.inr (by simp [hlist, hm']))
    · intro m' hm'
      refine ⟨hm'.imp_right (.imp_right fun hmem => by simp [hlist, hmem]), fun huse => ?_⟩
      simpa [release, hpend m' hm'] using huse

theorem Inv.step (h : s.Inv) {op : InflightOp} (hway : s.OutOfTheWay op) (hs : s.step op = some s') :
    s'.Inv := by
  cases op with
  | claim msg => exact h.claim hway hs
  | send => exact h.send hs
  | complete m raised => exact h.complete hs
  | irq => exact h.irq hs
  | txDone => exact h.txDone hs

/-- No two TCSes of a group are in flight to one resource, in every run where a message is sent only while the
requests that are not waited for are out of its way. -/
theorem rpmh_inflight_exclusive (numTcs ncpt : ℕ) (borrowed : Bool) (ops : List InflightOp)
    (hway : Meets InflightSys.step OutOfTheWay (start numTcs ncpt borrowed) ops)
    (hrun : run InflightSys.step (start numTcs ncpt borrowed) ops = some s) : s.Exclusive :=
  (run_inv (fun _ _ _ hi hway hs => hi.step hway hs) (inv_start numTcs ncpt borrowed) hway hrun).exclusive

def activeRequest (addr : UInt32) (wait : Bool) : TcsRequest :=
  { state := .activeOnly, waitForCompl := wait, cmds := [⟨addr, 1, wait⟩] }

def sendAll (msg : TcsRequest) : List InflightOp := [.claim msg, .send, .send, .send]

def completeOne (m : ℕ) : List InflightOp := [.complete m true, .irq, .txDone, .txDone]

def blockingRun : List InflightOp :=
  sendAll (activeRequest 0x30000 true) ++ sendAll (activeRequest 0x50000 true) ++ completeOne 0 ++
    sendAll (activeRequest 0x30000 true)

/-- Three blocking requests: the third is to the resource of the first, which has completed. -/
theorem rpmh_inflight_exclusive_blocking :
    ∃ s, run InflightSys.step (start 2 4 false) blockingRun = some s ∧ s.inflight 0 = some [0x30000] ∧
      s.inflight 1 = some [0x50000] ∧ s.Exclusive := by
  have hrun : (run InflightSys.step (start 2 4 false) blockingRun).map
      (fun s => (s.inflight 0, s.inflight 1)) = some (some [0x30000], some [0x50000]) := by decide
  obtain ⟨s, hs, hfly⟩ := map_eq_some_iff.mp hrun
  obtain ⟨h₀, h₁⟩ := Prod.mk.inj hfly
  exact ⟨s, hs, h₀, h₁, rpmh_inflight_exclusive 2 4 false blockingRun (by decide) hs⟩

/-- A request that is not waited for is on the second TCS when the first one completes. Its mark is gone, so
the next request to its resource is sent. -/
theorem rpmh_inflight_fire_and_forget :
    ∃ s, run InflightSys.step (start 2 4 false)
      (sendAll (activeRequest 0x30000 true) ++ sendAll (activeRequest 0x50000 false) ++ completeOne 0 ++
        sendAll (activeRequest 0x50000 true)) = some s ∧ ¬s.Exclusive := by
  have hrun : (run InflightSys.step (start 2 4 false)
      (sendAll (activeRequest 0x30000 true) ++ sendAll (activeRequest 0x50000 false) ++ completeOne 0 ++
        sendAll (activeRequest 0x50000 true))).map (fun s => (s.inflight 0, s.inflight 1)) =
      some (some [0x50000], some [0x50000]) := by decide
  obtain ⟨s, hs, hfly⟩ := map_eq_some_iff.mp hrun
  obtain ⟨h₀, h₁⟩ := Prod.mk.inj hfly
  refine ⟨s, hs, fun hexcl => ?_⟩
  have hma := hexcl 0 1 _ _ (by decide) h₀ h₁ 0x50000 (by simp) 0x50000 (by simp)
  exact absurd hma (by decide)

end InflightSys

end VendorKernel.Rpmh
