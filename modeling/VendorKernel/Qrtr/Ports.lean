import VendorKernel.Lib.Machine
import VendorKernel.Qrtr.Packet

/-! The port table of QRTR (`af_qrtr.c`): the sockets that are bound to ports, and the references to them
that the table, packets on their way to a socket and the prints of wake-up reasons take. -/
namespace VendorKernel.Qrtr

open Function Machine List

def QRTR_MIN_EPH_SOCKET : UInt32 := 0x4000

def QRTR_MAX_EPH_SOCKET : UInt32 := 0x7fff

/-- Where a port is in `qrtr_ports`. The index is the `int` as an `unsigned long`, so that other ports keep
apart. -/
def portIndex (port : UInt32) : UInt32 := if port.toNat = QRTR_PORT_CTRL then 0 else port

theorem min_le_port_iff {port : UInt32} :
    QRTR_MIN_EPH_SOCKET.toInt32 ≤ port.toInt32 ↔ 0x4000 ≤ port.toNat ∧ port.toNat < 2 ^ 31 := by
  have := port.toNat_lt
  rw [Int32.le_iff_toInt_le]
  change BitVec.toInt 0x4000#32 ≤ port.toBitVec.toInt ↔ _
  simp [BitVec.toInt_eq_toNat_cond]
  omega

structure QrtrSock where
  sqPort : UInt32
  zapped : Bool
  released : Bool
  /-- The part of `sk_refcnt` that the port code has taken. -/
  refs : ℕ
  /-- Not in the source: the process that bound the socket had no privilege. -/
  unprivileged : Bool
  /-- Not in the source: the prints of wake-up reasons that have found the socket. -/
  printed : ℕ

def QrtrSock.Bound (sk : QrtrSock) : Prop := sk.zapped = false ∧ sk.released = false

instance (sk : QrtrSock) : Decidable sk.Bound := inferInstanceAs (Decidable (_ ∧ _))

structure Ports where
  table : UInt32 → Option ℕ
  sock : ℕ → QrtrSock
  /-- The sockets that the reception of a packet has looked up and not put yet. -/
  receiving : List ℕ

inductive PortOp where
  /-- `__qrtr_bind`: whether the process has a privilege, what `xa_alloc_cyclic` finds, and whether there is
  memory for `xa_insert`. -/
  | bind (i : ℕ) (port : UInt32) (privileged : Bool) (alloc : Option UInt32) (memory : Bool)
  | release (i : ℕ)
  | receive (port : UInt32)
  | received (i : ℕ)
  | printWakeupReason (port : UInt32)

namespace Ports

variable {s s' : Ports} {i j : ℕ} {port : UInt32}

def setSock (s : Ports) (i : ℕ) (f : QrtrSock → QrtrSock) : Ports :=
  { s with sock := update s.sock i (f (s.sock i)) }

def qrtrPortAssign (s : Ports) (port : UInt32) (privileged : Bool) (alloc : Option UInt32) (memory : Bool) :
    Option UInt32 :=
  if port = 0 then alloc
  else if port.toInt32 < QRTR_MIN_EPH_SOCKET.toInt32 ∧ privileged = false then none
  else if s.table (portIndex port) = none ∧ memory = true then some port else none

def enter (s : Ports) (i : ℕ) (port : UInt32) : Ports :=
  { s with table := update s.table (portIndex port) (some i) }.setSock i fun sk => { sk with refs := sk.refs + 1 }

def qrtrPortRemove (s : Ports) (i : ℕ) : Ports :=
  { s with table := update s.table (portIndex (s.sock i).sqPort) none }.setSock i
    fun sk => { sk with refs := sk.refs - 1 }

/-- `qrtr_port_lookup`, with what the caller does with the socket that is found. -/
def qrtrPortLookup (s : Ports) (port : UInt32) (found : ℕ → Ports → Ports) : Ports :=
  match s.table (portIndex port) with
  | none => s
  | some i => found i (s.setSock i fun sk => { sk with refs := sk.refs + 1 })

def step (s : Ports) : PortOp → Option Ports
  | .bind i port privileged alloc memory =>
    if (s.sock i).released = true then none
    else if (s.sock i).zapped = false ∧ port = (s.sock i).sqPort then some s
    else if ∃ p ∈ alloc, ¬(QRTR_MIN_EPH_SOCKET ≤ p ∧ p ≤ QRTR_MAX_EPH_SOCKET ∧ s.table p = none) then none
    else
      match s.qrtrPortAssign port privileged alloc memory with
      | none => some s
      | some port =>
        let s := s.enter i port
        let s := if (s.sock i).zapped = true then s else s.qrtrPortRemove i
        some (s.setSock i fun sk => { sk with sqPort := port, zapped := false, unprivileged := !privileged })
  | .release i =>
    if (s.sock i).released = true then some s
    else
      let s := if (s.sock i).zapped = true then s else s.qrtrPortRemove i
      some (s.setSock i fun sk => { sk with released := true })
  | .receive port => some (s.qrtrPortLookup port fun i s => { s with receiving := i :: s.receiving })
  | .received i =>
    if i ∈ s.receiving then
      some { s.setSock i fun sk => { sk with refs := sk.refs - 1 } with receiving := s.receiving.erase i }
    else none
  | .printWakeupReason port =>
    some (s.qrtrPortLookup port fun i s => s.setSock i fun sk => { sk with printed := sk.printed + 1 })

def init : Ports := ⟨fun _ => none, fun _ => ⟨0, true, false, 0, false, 0⟩, []⟩

structure Inv (s : Ports) : Prop where
  entered : ∀ k i, s.table k = some i ↔ (s.sock i).Bound ∧ k = portIndex (s.sock i).sqPort
  port : ∀ i, (s.sock i).Bound → (s.sock i).sqPort ≠ 0 ∧
    ((s.sock i).unprivileged = true → QRTR_MIN_EPH_SOCKET.toInt32 ≤ (s.sock i).sqPort.toInt32)
  refs : ∀ i, (s.sock i).refs = (if (s.sock i).Bound then 1 else 0) + s.receiving.count i + (s.sock i).printed

section
variable (s : Ports) (i : ℕ) (f : QrtrSock → QrtrSock)

@[simp] theorem setSock_table : (s.setSock i f).table = s.table := rfl

@[simp] theorem setSock_receiving : (s.setSock i f).receiving = s.receiving := rfl

@[simp] theorem setSock_self : (s.setSock i f).sock i = f (s.sock i) := update_self ..

@[simp] theorem setSock_of_ne (hj : j ≠ i) : (s.setSock i f).sock j = s.sock j := update_of_ne hj ..

end

namespace Inv

section
variable (h : Inv s)
include h

theorem change (i : ℕ) (hsock : ∀ j ≠ i, s'.sock j = s.sock j)
    (hoth : ∀ k, ∀ j ≠ i, s'.table k = some j ↔ s.table k = some j)
    (hself : ∀ k, s'.table k = some i ↔ (s'.sock i).Bound ∧ k = portIndex (s'.sock i).sqPort)
    (hport : (s'.sock i).Bound → (s'.sock i).sqPort ≠ 0 ∧
      ((s'.sock i).unprivileged = true → QRTR_MIN_EPH_SOCKET.toInt32 ≤ (s'.sock i).sqPort.toInt32))
    (hcnt : ∀ j ≠ i, s'.receiving.count j = s.receiving.count j)
    (hrefs : (s'.sock i).refs = (if (s'.sock i).Bound then 1 else 0) + s'.receiving.count i + (s'.sock i).printed) :
    Inv s' := by
  refine ⟨fun k j => ?_, fun j => ?_, fun j => ?_⟩
  all_goals by_cases hj : j = i
  · exact hj ▸ hself k
  · rw [hsock j hj, hoth k j hj, h.entered]
  · exact hj ▸ hport
  · rw [hsock j hj]
    exact h.port j
  · exact hj ▸ hrefs
  · rw [hsock j hj, hcnt j hj, h.refs]

theorem table_iff (hrel : (s.sock i).released = false) (k : UInt32) :
    s.table k = some i ↔ (s.sock i).zapped = false ∧ k = portIndex (s.sock i).sqPort := by
  simp [h.entered, QrtrSock.Bound, hrel]

theorem bind (hrel : (s.sock i).released = false) (hfree : s.table (portIndex port) = none) (hport : port ≠ 0)
    {unprivileged : Bool} (hmin : unprivileged = true → QRTR_MIN_EPH_SOCKET.toInt32 ≤ port.toInt32) :
    Inv ((if ((s.enter i port).sock i).zapped = true then s.enter i port
      else (s.enter i port).qrtrPortRemove i).setSock i
        fun sk => { sk with sqPort := port, zapped := false, unprivileged := unprivileged }) := by
  have hrefs := h.refs i
  have htable := h.table_iff hrel
  refine h.change i (fun j hj => ?_) (fun k j hj => ?_) (fun k => ?_) (fun _ => by simpa using ⟨hport, hmin⟩)
    (fun _ _ => ?_) ?_
  -- a bound socket has its old entry too, which is not the free one and goes
  all_goals cases hz : (s.sock i).zapped
  all_goals simp_all [enter, qrtrPortRemove, QrtrSock.Bound]
  all_goals grind

theorem release (hrel : (s.sock i).released = false) :
    Inv ((if (s.sock i).zapped = true then s else s.qrtrPortRemove i).setSock i
        fun sk => { sk with released := true }) := by
  have hrefs := h.refs i
  have htable := h.table_iff hrel
  refine h.change i (fun j hj => ?_) (fun k j hj => ?_) (fun k => ?_) (by simp [QrtrSock.Bound])
    (fun _ _ => ?_) ?_
  all_goals cases hz : (s.sock i).zapped
  all_goals simp_all [qrtrPortRemove, QrtrSock.Bound]
  all_goals grind

omit h in
/-- An assigned port is free, is not 0, and without a privilege is not below `QRTR_MIN_EPH_SOCKET`. -/
theorem assigned {privileged memory : Bool} {alloc : Option UInt32} {p : UInt32}
    (hac : ∀ p ∈ alloc, QRTR_MIN_EPH_SOCKET ≤ p ∧ p ≤ QRTR_MAX_EPH_SOCKET ∧ s.table p = none)
    (hasn : s.qrtrPortAssign port privileged alloc memory = some p) :
    s.table (portIndex p) = none ∧ p ≠ 0 ∧ ((!privileged) = true → QRTR_MIN_EPH_SOCKET.toInt32 ≤ p.toInt32) := by
  unfold qrtrPortAssign at hasn
  split_ifs at hasn with h0 hmin hfree
  · obtain ⟨hlo, hhi, hnone⟩ := hac p hasn
    rw [UInt32.le_iff_toNat_le] at hlo hhi
    have hlo : 0x4000 ≤ p.toNat := hlo
    have hhi : p.toNat ≤ 0x7fff := hhi
    refine ⟨?_, ?_, fun _ => min_le_port_iff.mpr (by omega)⟩
    · rwa [portIndex, if_neg (by unfold QRTR_PORT_CTRL; omega)]
    · rintro rfl
      exact absurd hlo (by decide)
  · cases hasn
    refine ⟨hfree.1, h0, fun hp => ?_⟩
    exact Int32.not_lt.mp fun hlt => hmin ⟨hlt, by simpa using hp⟩

theorem lookup {found : ℕ → Ports → Ports}
    (hfd : ∀ i, Inv (found i (s.setSock i fun sk => { sk with refs := sk.refs + 1 }))) :
    Inv (s.qrtrPortLookup port found) := by
  unfold qrtrPortLookup
  split
  · exact h
  · exact hfd _

theorem count {f : QrtrSock → QrtrSock} (hf : ∀ sk, (f sk).Bound = sk.Bound ∧ (f sk).sqPort = sk.sqPort ∧
      (f sk).unprivileged = sk.unprivileged) {receiving : List ℕ}
    (hcnt : ∀ j ≠ i, receiving.count j = s.receiving.count j)
    (hrefs : (f (s.sock i)).refs = (if (s.sock i).Bound then 1 else 0) + receiving.count i + (f (s.sock i)).printed) :
    Inv { s.setSock i f with receiving := receiving } := by
  obtain ⟨hb, hp, hu⟩ := hf (s.sock i)
  refine h.change i (fun j hj => by simp [hj]) (fun k j hj => .rfl) (fun k => ?_) ?_ hcnt ?_
  · simpa [hb, hp] using h.entered k i
  · simpa [hb, hp, hu] using h.port i
  · simpa [hb] using hrefs

/-- Every operation keeps ports and references. -/
theorem step {op : PortOp} (hstep : s.step op = some s') : Inv s' := by
  cases op with
  | bind i port privileged alloc memory =>
    simp only [Ports.step] at hstep
    split_ifs at hstep with hrel hsame hac
    · cases hstep
      exact h
    · cases hasn : s.qrtrPortAssign port privileged alloc memory with rw [hasn] at hstep
      | none =>
        cases hstep
        exact h
      | some p =>
        cases hstep
        obtain ⟨hfree, hne, hmin⟩ := assigned (by simpa using hac) hasn
        exact h.bind (by simpa using hrel) hfree hne hmin
  | release i =>
    simp only [Ports.step] at hstep
    by_cases hrel : (s.sock i).released = true
    · rw [if_pos hrel] at hstep
      cases hstep
      exact h
    · rw [if_neg hrel] at hstep
      cases hstep
      exact h.release (by simpa using hrel)
  | receive port =>
    cases hstep
    refine h.lookup fun i => ?_
    have := h.refs i
    refine h.count (f := fun sk => { sk with refs := sk.refs + 1 }) (fun _ => ⟨rfl, rfl, rfl⟩) (fun j hj => ?_) ?_
    · exact count_cons_of_ne hj.symm
    · simp
      omega
  | received i =>
    obtain ⟨hmem, ⟨⟩⟩ := Option.ite_none_right_eq_some.mp hstep
    have := h.refs i
    have := count_pos_iff.mpr hmem
    refine h.count (f := fun sk => { sk with refs := sk.refs - 1 }) (fun _ => ⟨rfl, rfl, rfl⟩) (fun j hj => ?_) ?_
    · exact count_erase_of_ne hj
    · simp
      omega
  | printWakeupReason port =>
    cases hstep
    refine h.lookup fun i => ?_
    have := h.refs i
    have := h.count (i := i) (f := fun sk => { sk with refs := sk.refs + 1, printed := sk.printed + 1 })
      (fun _ => ⟨rfl, rfl, rfl⟩) (fun j hj => rfl) (by simp; omega)
    simpa [setSock] using this

end

end Inv

theorem inv_run {ops : List PortOp} (hrun : run step init ops = some s) : s.Inv :=
  run_inv_always (fun _ _ _ h hstep => h.step hstep) (by constructor <;> simp [init, QrtrSock.Bound]) hrun

/-- After every run a bound socket is in the table at its port only, other sockets are not in it, and a
process without a privilege is bound to neither the control port nor a port below `QRTR_MIN_EPH_SOCKET`. When
no packet is on its way the references are those of the table, exactly for the sockets that no print of a
wake-up reason has found: `qrtr_print_wakeup_reason` does not put the socket that it looks up. -/
theorem qrtr_ports_exact (ops : List PortOp) (s : Ports) (hrun : run step init ops = some s) (i : ℕ) :
    (∀ k, s.table k = some i ↔ (s.sock i).Bound ∧ k = portIndex (s.sock i).sqPort) ∧
      ((s.sock i).Bound → (s.sock i).unprivileged = true →
        (s.sock i).sqPort.toNat ≠ QRTR_PORT_CTRL ∧ QRTR_MIN_EPH_SOCKET ≤ (s.sock i).sqPort) ∧
      (s.receiving = [] →
        ((s.sock i).refs = (if s.table (portIndex (s.sock i).sqPort) = some i then 1 else 0) ↔
          (s.sock i).printed = 0)) := by
  have h := inv_run hrun
  refine ⟨fun k => h.entered k i, fun hb hu => ?_, fun hr => ?_⟩
  · have := min_le_port_iff.mp ((h.port i hb).2 hu)
    unfold QRTR_PORT_CTRL
    exact ⟨by omega, this.1⟩
  · have hrefs := h.refs i
    simp only [h.entered, and_true]
    rw [hrefs, hr, count_nil]
    omega

def boundTwice : List PortOp :=
  [.bind 0 0 false (some 0x4000) true, .bind 0 1 true none true, .receive 1, .received 0]

/-- A socket is bound to an ephemeral port, is bound again to a port below `QRTR_MIN_EPH_SOCKET`, and gets a
packet. -/
theorem qrtr_ports_exact_boundTwice : ∃ s, run step init boundTwice = some s ∧
    (s.table 1 = some 0 ↔ (s.sock 0).Bound ∧ 1 = portIndex (s.sock 0).sqPort) :=
  ⟨_, rfl, (qrtr_ports_exact boundTwice _ rfl 0).1 1⟩

/-- A packet to the socket wakes the system up: the reference that its print took stays. -/
theorem qrtr_ports_leaked : ∃ s,
    run step init [.bind 0 0x4001 false none true, .printWakeupReason 0x4001] = some s ∧
      s.receiving = [] ∧ s.table 0x4001 = some 0 ∧ (s.sock 0).refs = 2 :=
  ⟨_, rfl, rfl, rfl, rfl⟩

end Ports

end VendorKernel.Qrtr
