import Mathlib.Algebra.Order.Ring.Int
import VendorKernel.Lib.Machine

/-! Flow control of one QRTR destination (`af_qrtr.c`): the senders, the messages that ask for a
confirmation, the remote's answers and the counter they reset. -/
namespace VendorKernel.Qrtr

open Machine Option Nat

def QRTR_TX_FLOW_HIGH : ℕ := 10
def QRTR_TX_FLOW_LOW : ℕ := 5

def EAGAIN : ℤ := 11
def ENOMEM : ℤ := 12
def EPIPE : ℤ := 32

variable {ι : Type*} [DecidableEq ι]

/-- `struct qrtr_tx_flow`; the waiters are the sockets to notify on a resume. -/
structure TxFlow (ι : Type*) where
  pending : ℕ
  txFailed : Bool
  waiters : List ι

def TxFlow.MayGo (flow : TxFlow ι) (ep : Bool) : Prop :=
  flow.pending < QRTR_TX_FLOW_HIGH ∨ flow.txFailed = true ∨ ep = false

omit [DecidableEq ι] in
instance (flow : TxFlow ι) (ep : Bool) : Decidable (flow.MayGo ep) := by
  unfold TxFlow.MayGo
  infer_instance

/-- `qrtr_tx_wait` for a data message, from the result of the wait on. -/
def qrtrTxWait (flow : TxFlow ι) (sk : ι) (ret : ℤ) (ep kzalloc : Bool) : TxFlow ι × ℤ :=
  if ret < 0 then (flow, ret)
  else if ep = false then (flow, -EPIPE)
  else if flow.txFailed then ({ flow with txFailed := false }, 1)
  else if ret = 0 ∧ QRTR_TX_FLOW_HIGH ≤ flow.pending then
    if sk ∈ flow.waiters then (flow, -EAGAIN)
    else if kzalloc then ({ flow with waiters := flow.waiters ++ [sk] }, -EAGAIN)
    else (flow, -ENOMEM)
  else
    let pending := flow.pending + 1
    ({ flow with pending := pending }, if pending = QRTR_TX_FLOW_LOW then 1 else 0)

def qrtrTxResume (flow : TxFlow ι) : TxFlow ι := { flow with pending := 0, waiters := [] }

def qrtrTxFlowFailed (flow : TxFlow ι) : TxFlow ι := { flow with txFailed := true }

/-- Outside `qrtr_node_enqueue`, with a message of its own or of another node, or with a failure to report. -/
inductive Sender
  | idle
  | holding (confirmRx : Bool)
  | forwarding (confirmRx : Bool)
  | failing (confirmRx : Bool)
  deriving DecidableEq

structure FlowSys (ι : Type*) where
  flow : TxFlow ι
  ep : Bool
  sender : ι → Sender
  /-- The `confirm_rx` messages and the `RESUME_TX` packets under way. -/
  confirms : ℕ
  resumes : ℕ

inductive FlowOp (ι : Type*)
  | txWait (sk : ι) (ret : ℤ) (ep kzalloc : Bool)
  | control (sk : ι)
  | forward (sk : ι) (confirmRx : Bool)
  | xmit (sk : ι) (sent : Bool)
  | reportFailure (sk : ι)
  | remoteReceive
  | txResume
  | unregister

def FlowSys.init (ι : Type*) : FlowSys ι := ⟨⟨0, false, []⟩, true, fun _ => .idle, 0, 0⟩

def FlowSys.setSender (s : FlowSys ι) (sk : ι) (p : Sender) : FlowSys ι :=
  { s with sender := Function.update s.sender sk p }

/-- The wait ends well only on its condition; it may time out or be interrupted, and the endpoint be cleared
meanwhile. -/
def flowStep (s : FlowSys ι) : FlowOp ι → Option (FlowSys ι)
  | .txWait sk ret ep kzalloc =>
    if s.sender sk = .idle ∧ (ep = true → s.ep = true) ∧ (0 < ret → s.flow.MayGo s.ep) then
      let wait := qrtrTxWait s.flow sk ret ep kzalloc
      let s' := { s with flow := wait.1, ep := ep }
      some (if wait.2 < 0 then s' else s'.setSender sk (.holding (wait.2 ≠ 0)))
    else none
  | .control sk =>
    if s.sender sk = .idle then some (s.setSender sk (.holding false)) else none
  | .forward sk confirmRx =>
    if s.sender sk = .idle then some (s.setSender sk (.forwarding confirmRx)) else none
  | .xmit sk sent =>
    match s.sender sk with
    | .holding confirmRx =>
      if sent then
        some { s.setSender sk .idle with confirms := s.confirms + confirmRx.toNat }
      else some (s.setSender sk (.failing confirmRx))
    | .forwarding confirmRx =>
      -- the `RESUME_TX` for it goes on to the other node
      some (s.setSender sk (if sent then .idle else .failing confirmRx))
    | _ => none
  | .reportFailure sk =>
    match s.sender sk with
    | .failing confirmRx =>
      some
        { s.setSender sk .idle with flow := if confirmRx then qrtrTxFlowFailed s.flow else s.flow }
    | _ => none
  | .remoteReceive =>
    if 0 < s.confirms then
      some { s with confirms := s.confirms - 1, resumes := s.resumes + 1 }
    else none
  | .txResume =>
    if 0 < s.resumes then
      some { s with flow := qrtrTxResume s.flow, resumes := s.resumes - 1 }
    else none
  | .unregister => some { s with ep := false }

/-- A sender has the `confirm_rx` message in hand: still to be sent, or failed and unreported. -/
def FlowSys.Held (s : FlowSys ι) : Prop :=
  ∃ sk, s.sender sk = .holding true ∨ s.sender sk = .failing true

/-- Something is under way that will reset the counter or make a later message ask for it. -/
def FlowSys.Outstanding (s : FlowSys ι) : Prop :=
  s.Held ∨ 0 < s.confirms ∨ 0 < s.resumes ∨ s.flow.txFailed = true

structure FlowSys.Sound (s : FlowSys ι) : Prop where
  high : s.flow.pending ≤ QRTR_TX_FLOW_HIGH
  low : QRTR_TX_FLOW_LOW ≤ s.flow.pending → s.Outstanding

/-- What `qrtr_tx_wait` can do to the flow: nothing but a new waiter, take over a lost
confirmation, or count one more message. -/
theorem qrtrTxWait_cases (flow : TxFlow ι) (sk : ι) (ret : ℤ) (ep kzalloc : Bool) :
    ((qrtrTxWait flow sk ret ep kzalloc).2 < 0 ∧
      (qrtrTxWait flow sk ret ep kzalloc).1.pending = flow.pending ∧
      (qrtrTxWait flow sk ret ep kzalloc).1.txFailed = flow.txFailed) ∨
    (flow.txFailed = true ∧ qrtrTxWait flow sk ret ep kzalloc = ({ flow with txFailed := false }, 1)) ∨
    (ep = true ∧ flow.txFailed = false ∧ ¬(ret = 0 ∧ QRTR_TX_FLOW_HIGH ≤ flow.pending) ∧ 0 ≤ ret ∧
      qrtrTxWait flow sk ret ep kzalloc =
        ({ flow with pending := flow.pending + 1 },
          if flow.pending + 1 = QRTR_TX_FLOW_LOW then 1 else 0)) := by
  have hag : -EAGAIN < 0 := by decide
  fun_cases qrtrTxWait flow sk ret ep kzalloc with
  | case1 hneg => exact .inl ⟨hneg, rfl, rfl⟩
  | case2 => exact .inl ⟨(by decide : -EPIPE < 0), rfl, rfl⟩
  | case3 _ _ hfl => exact .inr (.inl ⟨hfl, rfl⟩)
  | case4 | case5 => exact .inl ⟨hag, rfl, rfl⟩
  | case6 => exact .inl ⟨(by decide : -ENOMEM < 0), rfl, rfl⟩
  | case7 hneg hep hfl hroom =>
    exact .inr (.inr ⟨by simpa using hep, by simpa using hfl, hroom, Int.not_lt.mp hneg, rfl⟩)

variable {s s' : FlowSys ι} {sk sk' : ι}

theorem held_setSender_of_idle (hidle : s.sender sk = .idle) (p : Sender) (h : s.Held) : (s.setSender sk p).Held := by
  obtain ⟨sk', hsk'⟩ := h
  have hne : sk' ≠ sk := by
    rintro rfl
    simp [hidle] at hsk'
  exact ⟨sk', by simpa [FlowSys.setSender, hne] using hsk'⟩

theorem held_setSender_self (s : FlowSys ι) (sk : ι) : (s.setSender sk (.holding true)).Held :=
  ⟨sk, .inl (by simp [FlowSys.setSender])⟩

theorem outstanding_setSender (hidle : s.sender sk = .idle)
    (p : Sender) (h : s.Outstanding) : (s.setSender sk p).Outstanding := by
  rcases h with hheld | hoth
  · exact .inl (held_setSender_of_idle hidle p hheld)
  · exact .inr hoth

theorem sound_setSender (hs : s.Sound) (hidle : s.sender sk = .idle) (p : Sender) : (s.setSender sk p).Sound :=
  ⟨hs.high, fun hlow => outstanding_setSender hidle p (hs.low hlow)⟩

/-- A message that is counted, or takes a confirmation over. -/
theorem sound_txWait (hs : s.Sound) {ret : ℤ} {ep kzalloc : Bool}
    (h : flowStep s (.txWait sk ret ep kzalloc) = some s') : s'.Sound := by
  obtain ⟨⟨hidle, hep, hgo⟩, h⟩ := ite_none_right_eq_some.mp h
  cases h
  rcases qrtrTxWait_cases s.flow sk ret ep kzalloc with
    ⟨hneg, hpend, hfl⟩ | ⟨hfl, heq⟩ | ⟨hset, hfl, hroom, hret, heq⟩
  · -- the message is refused
    rw [if_pos hneg]
    refine ⟨hpend.trans_le hs.high, ?_⟩
    intro hlow
    rcases hs.low (hlow.trans_eq hpend) with hheld | hconf | hres | htx
    · exact .inl hheld
    · exact .inr (.inl hconf)
    · exact .inr (.inr (.inl hres))
    · exact .inr (.inr (.inr (hfl.trans htx)))
  · -- this sender now carries the lost confirmation
    simp only [heq]
    refine ⟨hs.high, ?_⟩
    intro hlow
    exact .inl (held_setSender_self _ sk)
  · have hlt : s.flow.pending < QRTR_TX_FLOW_HIGH := by
      rcases hret.lt_or_eq with hpos | hzero
      · rcases hgo hpos with hlt | htx | hep'
        · exact hlt
        · simp [hfl] at htx
        · simp [hep hset] at hep'
      · exact not_le.mp fun hfull => hroom ⟨hzero.symm, hfull⟩
    simp only [heq]
    by_cases hmark : s.flow.pending + 1 = QRTR_TX_FLOW_LOW
    · -- the low watermark: this message asks for the confirmation
      rw [if_pos hmark]
      refine ⟨hlt, ?_⟩
      intro hlow
      exact .inl (held_setSender_self _ sk)
    · rw [if_neg hmark]
      refine ⟨hlt, ?_⟩
      intro hlow
      have hold : QRTR_TX_FLOW_LOW ≤ s.flow.pending :=
        le_of_lt_succ (lt_of_le_of_ne hlow (Ne.symm hmark))
      rcases hs.low hold with hheld | hoth
      · exact .inl (held_setSender_of_idle hidle _ hheld)
      · exact .inr hoth

theorem sound_handOver (hs : s.Sound) (hpend : s'.flow.pending = s.flow.pending)
    (hsnd : ∀ sk' ≠ sk, s'.sender sk' = s.sender sk')
    (hconfirms : s.confirms ≤ s'.confirms) (hresumes : s.resumes ≤ s'.resumes)
    (hfl : s.flow.txFailed = true → s'.flow.txFailed = true)
    (hduty : s.sender sk = .holding true ∨ s.sender sk = .failing true → s'.Outstanding) : s'.Sound := by
  refine ⟨hpend.trans_le hs.high, ?_⟩
  intro hlow
  rcases hs.low (hlow.trans_eq hpend) with ⟨sk', hheld⟩ | hconf | hres | htx
  · by_cases hsk' : sk' = sk
    · exact hduty (hsk' ▸ hheld)
    · exact .inl ⟨sk', by simpa [hsnd sk' hsk'] using hheld⟩
  · exact .inr (.inl (hconf.trans_le hconfirms))
  · exact .inr (.inr (.inl (hres.trans_le hresumes)))
  · exact .inr (.inr (.inr (hfl htx)))

theorem setSender_sender_of_ne (s : FlowSys ι) (p : Sender) (h : sk' ≠ sk) :
    (s.setSender sk p).sender sk' = s.sender sk' := by
  simp [FlowSys.setSender, h]

theorem sound_xmit (hs : s.Sound) {sent : Bool} (h : flowStep s (.xmit sk sent) = some s') : s'.Sound := by
  simp only [flowStep] at h
  split at h
  · next confirmRx hsk =>
    split at h
    · -- the duty goes into flight
      cases h
      refine sound_handOver hs rfl (fun _ => setSender_sender_of_ne s _) (le_add_right _ _) le_rfl id fun hduty => ?_
      obtain rfl : confirmRx = true := by simpa [hsk] using hduty
      exact .inr (.inl (succ_pos _))
    · cases h
      refine sound_handOver hs rfl (fun _ => setSender_sender_of_ne s _) le_rfl le_rfl id fun hduty => ?_
      obtain rfl : confirmRx = true := by simpa [hsk] using hduty
      exact .inl ⟨sk, .inr (by simp [FlowSys.setSender])⟩
  · next confirmRx hsk =>
    cases h
    exact sound_handOver hs rfl (fun _ => setSender_sender_of_ne s _) le_rfl le_rfl id (by simp [hsk])
  · simp at h

theorem sound_reportFailure (hs : s.Sound) (h : flowStep s (.reportFailure sk) = some s') : s'.Sound := by
  simp only [flowStep] at h
  split at h
  · next confirmRx hsk =>
    cases h
    refine sound_handOver hs ?_ (fun _ => setSender_sender_of_ne s _) le_rfl le_rfl ?_ fun hduty => ?_
    · cases confirmRx <;> rfl
    · cases confirmRx
      · exact id
      · exact fun _ => rfl
    · obtain rfl : confirmRx = true := by simpa [hsk] using hduty
      exact .inr (.inr (.inr rfl))
  · simp at h

theorem sound_remoteReceive (hs : s.Sound) (h : flowStep s .remoteReceive = some s') : s'.Sound := by
  obtain ⟨-, ⟨⟩⟩ := ite_none_right_eq_some.mp h
  exact ⟨hs.high, fun _ => .inr (.inr (.inl (succ_pos _)))⟩

theorem sound_txResume (h : flowStep s .txResume = some s') : s'.Sound := by
  obtain ⟨-, ⟨⟩⟩ := ite_none_right_eq_some.mp h
  exact ⟨zero_le _, fun hlow => absurd hlow (by decide : ¬QRTR_TX_FLOW_LOW ≤ 0)⟩

theorem sound_step (s : FlowSys ι) (op : FlowOp ι) (s' : FlowSys ι) (hs : s.Sound)
    (h : flowStep s op = some s') : s'.Sound := by
  cases op with
  | txWait => exact sound_txWait hs h
  | control =>
    obtain ⟨hidle, h⟩ := ite_none_right_eq_some.mp h
    exact some.inj h ▸ sound_setSender hs hidle _
  | forward =>
    obtain ⟨hidle, h⟩ := ite_none_right_eq_some.mp h
    exact some.inj h ▸ sound_setSender hs hidle _
  | xmit => exact sound_xmit hs h
  | reportFailure => exact sound_reportFailure hs h
  | remoteReceive => exact sound_remoteReceive hs h
  | txResume => exact sound_txResume h
  | unregister => exact some.inj h ▸ ⟨hs.high, hs.low⟩

/-- Under every interleaving of senders, failures, remote and resumes, the counter stays at or
below the high watermark, and from the low watermark on a confirmation is outstanding. -/
theorem tx_flow_not_stuck {ops : List (FlowOp ι)} {s : FlowSys ι}
    (hrun : run flowStep (.init ι) ops = some s) :
    s.flow.pending ≤ QRTR_TX_FLOW_HIGH ∧ (QRTR_TX_FLOW_LOW ≤ s.flow.pending → s.Outstanding) := by
  have hinit : (FlowSys.init ι).Sound :=
    ⟨zero_le _, fun hlow => absurd hlow (by decide : ¬QRTR_TX_FLOW_LOW ≤ 0)⟩
  have hs := run_inv_always sound_step hinit hrun
  exact ⟨hs.high, hs.low⟩

local instance neZeroTwo : NeZero 2 := ⟨by decide⟩

def failedConfirmTrace : List (FlowOp (Fin 2)) :=
  [.txWait 0 1 true true, .xmit 0 true, .txWait 0 1 true true, .xmit 0 true,
    .txWait 0 1 true true, .xmit 0 true, .txWait 0 1 true true, .xmit 0 true,
    .txWait 0 1 true true, .xmit 0 false, .txWait 1 1 true true, .xmit 1 true,
    .reportFailure 0, .txWait 1 1 true true]

/-- Of five messages the fifth asks for the confirmation and fails; the sixth is sent before that is
reported, the seventh takes the duty over. -/
theorem tx_flow_not_stuck_failedConfirmTrace :
    ∃ s, run flowStep (.init (Fin 2)) failedConfirmTrace = some s ∧
      s.flow.pending = 6 ∧ s.sender 1 = .holding true ∧ s.Outstanding :=
  ⟨_, (some_get (by decide)).symm, by decide, by decide,
    (tx_flow_not_stuck (some_get (by decide)).symm).2 (by decide)⟩

end VendorKernel.Qrtr
