import VendorKernel.Qrtr.GunyahDelivery

/-! What `qrtr_endpoint_post` takes from the packets of a transport. -/
namespace VendorKernel.Qrtr

open Machine RingBuffer LittleEndian List Option

def QRTR_PORT_CTRL_LEGACY : ℕ := 0xffff

def QRTR_TYPE_DATA : ℕ := 1
def QRTR_TYPE_NEW_SERVER : ℕ := 4
def QRTR_TYPE_RESUME_TX : ℕ := 7

def CTRL_PKT_SIZE : ℕ := 20

structure QrtrCb where
  srcNode : ℕ
  srcPort : ℕ
  dstNode : ℕ
  dstPort : ℕ
  type : ℕ
  confirmRx : Bool
deriving DecidableEq

def readHeader (data : ℕ → UInt8) (len : ℕ) : Option (QrtrCb × ℕ × ℕ) :=
  let ver := (data 0).toNat
  if ver = QRTR_PROTO_VER_1 then
    let word i := readLE data (4 * i) 4
    if len < HDR_V1_SIZE then none
    else some (⟨word 2, word 3, word 6, word 7, word 1 % 2 ^ 8, word 4 != 0⟩, HDR_V1_SIZE, word 5)
  else if ver = QRTR_PROTO_VER_2 then
    let port a := if readLE data a 2 = QRTR_PORT_CTRL % 2 ^ 16 then QRTR_PORT_CTRL else readLE data a 2
    if len < HDR_V2_SIZE then none
    else some (⟨readLE data 8 2, port 10, readLE data 12 2, port 14, (data 1).toNat, (data 2).toNat.testBit 0⟩,
      HDR_V2_SIZE + (data 3).toNat, readLE data 4 4)
  else none

/-- `qrtr_endpoint_post` up to the queueing of the message; `none` is `-EINVAL`. -/
def qrtrEndpointPost (data : ℕ → UInt8) (len : ℕ) : Option (QrtrCb × List UInt8) :=
  if len = 0 ∨ len % 4 ≠ 0 then none
  else
    (readHeader data len).bind fun (cb, hdrlen, size) =>
      let cb := if cb.dstPort = QRTR_PORT_CTRL_LEGACY then { cb with dstPort := QRTR_PORT_CTRL } else cb
      if size = 0 ∨ len ≠ align4 size + hdrlen then none
      else if (cb.type = QRTR_TYPE_NEW_SERVER ∨ cb.type = QRTR_TYPE_RESUME_TX) ∧ size < CTRL_PKT_SIZE then none
      else if cb.dstPort ≠ QRTR_PORT_CTRL ∧ cb.type ≠ QRTR_TYPE_DATA ∧ cb.type ≠ QRTR_TYPE_RESUME_TX then none
      else some (cb, slice data hdrlen size)

namespace Packet

/-- A message of up to 64 kB, with addresses in words and a type in a byte. -/
structure Sendable (p : Packet) : Prop where
  type : p.type < 2 ^ 8
  word : ∀ i < 8, p.headerWord i < 2 ^ 32
  size_pos : 0 < p.size
  size_lt : p.size < 2 ^ 16

def cb (p : Packet) : QrtrCb where
  srcNode := p.src.node
  srcPort := p.src.port
  dstNode := if p.dst.port = QRTR_PORT_CTRL then p.nid else p.dst.node
  dstPort := if p.dst.port = QRTR_PORT_CTRL_LEGACY then QRTR_PORT_CTRL else p.dst.port
  type := p.type
  confirmRx := p.confirmRx

/-- The message on the other side: there is none if a control packet that is read on receipt is short, or if the
port does not take its type. -/
def message (p : Packet) : Option (QrtrCb × List UInt8) :=
  if (p.type = QRTR_TYPE_NEW_SERVER ∨ p.type = QRTR_TYPE_RESUME_TX) ∧ p.size < CTRL_PKT_SIZE ∨
      p.cb.dstPort ≠ QRTR_PORT_CTRL ∧ p.type ≠ QRTR_TYPE_DATA ∧ p.type ≠ QRTR_TYPE_RESUME_TX then none
  else some (p.cb, slice p.payload 0 p.size)

section
variable {p : Packet} {data : ℕ → UInt8} (hp : p.Sendable) (hdata : ∀ i < p.length, data i = p.byte i)
include hp hdata

/-- The header is read back as it was written. -/
theorem readHeader_eq :
    readHeader data p.length = some ({ p.cb with dstPort := p.dst.port }, HDR_V1_SIZE, p.size) := by
  have hlen := p.header_le
  have hver : (data 0).toNat = QRTR_PROTO_VER_1 := by
    rw [hdata 0 (lt_of_lt_of_le (by decide) hlen)]
    change (leByte QRTR_PROTO_VER_1 0).toNat = _
    decide
  have hword : ∀ i < 8, readLE data (4 * i) 4 = p.headerWord i := by
    intro i hi
    rw [HDR_V1_SIZE] at hlen
    refine (readLE_of_leByte fun j hj => ?_).trans (Nat.mod_eq_of_lt (hp.word i hi))
    rw [hdata _ (by omega), byte, if_pos (by rw [HDR_V1_SIZE]; omega), show (4 * i + j) / 4 = i by omega,
      show (4 * i + j) % 4 = j by omega]
  rw [readHeader, if_pos hver, if_neg (Nat.not_lt.mpr hlen)]
  simp (disch := decide) only [hword, headerWord, cb, Nat.mod_eq_of_lt hp.type]
  congr 3
  · split_ifs with h
    · exact h.symm
    · rfl
  · cases p.confirmRx <;> rfl

theorem qrtrEndpointPost_eq : qrtrEndpointPost data p.length = p.message := by
  have hpos := hp.size_pos
  have hlen : p.length = align4 p.size + HDR_V1_SIZE := rfl
  have hali : p.length ≠ 0 ∧ p.length % 4 = 0 ∧ HDR_V1_SIZE + p.size ≤ p.length := by
    rw [hlen, align4, HDR_V1_SIZE]
    omega
  have hpay : slice data HDR_V1_SIZE p.size = slice p.payload 0 p.size := by
    refine slice_congr fun j hj => ?_
    rw [hdata _ (by omega), byte, if_neg (by omega), Nat.add_sub_cancel_left, if_pos hj, Nat.zero_add]
  have hcb : (if p.dst.port = QRTR_PORT_CTRL_LEGACY then { p.cb with dstPort := QRTR_PORT_CTRL }
      else { p.cb with dstPort := p.dst.port }) = p.cb := by
    rw [cb]
    split_ifs <;> rfl
  rw [qrtrEndpointPost, if_neg (by omega), readHeader_eq hp hdata, bind_some]
  dsimp only
  rw [hcb, if_neg (by omega), hpay, message, ite_or]
  rfl

/-- The other side takes the packets of `qrtr_node_enqueue` for what was sent. -/
theorem qrtr_packet_round_trip :
    qrtrEndpointPost data p.length = p.message ∧ qrtrPeekPktSize data = p.length := by
  refine ⟨qrtrEndpointPost_eq hp hdata, qrtrPeekPktSize_packet hp.size_lt.le fun j hj => hdata j ?_⟩
  exact lt_of_lt_of_le hj ((by decide : 24 ≤ HDR_V1_SIZE).trans p.header_le)

end

def hello : Packet := ⟨2, 2, ⟨1, QRTR_PORT_CTRL⟩, ⟨2, QRTR_PORT_CTRL⟩, false, 1, fun _ => 7⟩

theorem sendable_hello : hello.Sendable := ⟨by decide, by decide, by decide, by decide⟩

theorem qrtr_packet_round_trip_hello : qrtrEndpointPost hello.byte 36 = some (hello.cb, [7]) :=
  (qrtr_packet_round_trip sendable_hello fun _ _ => rfl).1

/-- A message to port 0xffff comes to the control port, and a short NEW_SERVER does not come. -/
theorem qrtr_packet_altered :
    (qrtrEndpointPost { hello with type := 1, dst := ⟨2, 0xffff⟩ }.byte 36).map (·.1.dstPort) = some QRTR_PORT_CTRL ∧
      qrtrEndpointPost { hello with type := 4 }.byte 36 = none := by
  decide +kernel

end Packet

def GunyahSys.received (s : GunyahSys) : List (Option (QrtrCb × List UInt8)) :=
  s.posted.map fun data => qrtrEndpointPost (data.getD · 0) data.length

/-- Over the gunyah FIFO the other side gets the messages sent in their order, and all of them once it is empty. -/
theorem gunyah_messages_received (fifo : ℕ → UInt8) {ops : List GunyahOp} {s : GunyahSys}
    (hmeets : Meets gunyahStep (fun s op => SizeFits op ∧ HeaderSeen s op ∧ FailsUnpublished s op) (.init fifo) ops)
    (hrun : run gunyahStep (.init fifo) ops = some s) (hsent : ∀ p ∈ s.sent, p.Sendable) :
    s.received <+: s.sent.map Packet.message ∧
      (s.sender = .idle → gunyahRxAvail s.pipe = 0 → s.received = s.sent.map Packet.message) := by
  obtain ⟨q, done, rest, hinv⟩ := gunyah_run_inv fifo hmeets hrun
  have hmsg : (s.sent.map Packet.data).map (fun data => qrtrEndpointPost (data.getD · 0) data.length) =
      s.sent.map Packet.message := by
    rw [List.map_map]
    refine map_congr_left fun p hp => ?_
    have hmem : slice (p.data.getD · 0) 0 p.data.length = p.data := slice_of_getElem? fun j hj => by
      rw [zero_add, getD_eq_getElem?_getD, getElem?_eq_getElem hj, getD_some]
    rw [p.data_length] at hmem
    rw [Function.comp_apply, p.data_length]
    refine Packet.qrtrEndpointPost_eq (hsent p hp) fun i hi => ?_
    simpa using slice_eq_iff.mp hmem i hi
  rw [← hmsg]
  exact ⟨hinv.delivers.posted.map _, fun hidle hemp => congrArg _ (hinv.delivers.all hidle hemp)⟩

def helloTrace : List GunyahOp := .send .hello :: shortPacketTrace.tail

/-- One message, read after its publication. -/
theorem gunyah_messages_received_hello :
    ∃ s, run gunyahStep (.init fun _ => 0) helloTrace = some s ∧ s.received = [Packet.hello.message] := by
  have hrun := (some_get (by decide +kernel : (run gunyahStep (.init fun _ => 0) helloTrace).isSome)).symm
  exact ⟨_, hrun, (gunyah_messages_received _ (by decide +kernel) hrun
    (forall_mem_singleton.mpr Packet.sendable_hello)).2 rfl (by decide +kernel)⟩

end VendorKernel.Qrtr
