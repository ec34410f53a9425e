import VendorKernel.Lib.LittleEndian
import VendorKernel.Lib.Machine
import VendorKernel.Lib.Reassembly

/-! QMSGQ over a gunyah message queue: `qmsgq_gh_send` cuts a packet into chunks,
`qmsgq_transport_process_recv` puts them together again. A chunk says nothing about its packet. -/
namespace VendorKernel.Qmsgq

open LittleEndian Machine Reassembly List Option Qmsgq Nat

def GH_MSGQ_MAX_MSG_SIZE_BYTES : ℕ := 240

def MAX_PKT_SZ : ℕ := 0x10000

def QMSGQ_GH_PROTO_VER_1 : UInt8 := 1

def PKT_TYPE_DGRAM : UInt8 := 1

def ERESTARTSYS : ℤ := 512

structure Hdr where
  type : UInt8
  size : ℕ
  srcCid : UInt32
  srcPortId : UInt32
  dstCid : UInt32
  dstPortId : UInt32

def HDR_SIZE : ℕ := 24

def Hdr.bytes (hdr : Hdr) : List UInt8 :=
  [QMSGQ_GH_PROTO_VER_1, hdr.type, 0, 0] ++ (leBytes hdr.size 4 ++ (leBytes hdr.srcCid.toNat 4 ++
    (leBytes hdr.srcPortId.toNat 4 ++ (leBytes hdr.dstCid.toNat 4 ++ leBytes hdr.dstPortId.toNat 4))))

def hdrVersion (buf : List UInt8) : UInt8 := buf.headD 0

def hdrSize (buf : List UInt8) : ℕ := ofLE ((buf.drop 4).take 4)

/-- A buffer that is given to `qmsgq_gh_send`: a header for this protocol and as many bytes as it
announces. -/
structure Packet where
  bytes : List UInt8
  header_le : HDR_SIZE ≤ bytes.length
  length_le : bytes.length ≤ MAX_PKT_SZ
  version_eq : hdrVersion bytes = QMSGQ_GH_PROTO_VER_1
  size_eq : HDR_SIZE + hdrSize bytes = bytes.length

@[simp] theorem Hdr.bytes_length (hdr : Hdr) : hdr.bytes.length = HDR_SIZE := by
  simp [bytes, HDR_SIZE]

theorem hdrSize_bytes_append (hdr : Hdr) (data : List UInt8) : hdrSize (hdr.bytes ++ data) = hdr.size % 256 ^ 4 := by
  have hdrop : (hdr.bytes ++ data).drop 4 = leBytes hdr.size 4 ++ (leBytes hdr.srcCid.toNat 4 ++
      (leBytes hdr.srcPortId.toNat 4 ++ (leBytes hdr.dstCid.toNat 4 ++
        (leBytes hdr.dstPortId.toNat 4 ++ data)))) := by
    simp [Hdr.bytes]
  rw [hdrSize, hdrop, take_left' (leBytes_length _ _), ofLE_leBytes]

def Packet.ofData (hdr : Hdr) (data : List UInt8) (h : data.length ≤ MAX_PKT_SZ - HDR_SIZE) : Packet where
  bytes := { hdr with size := data.length }.bytes ++ data
  header_le := by simp
  length_le := by
    rw [length_append, Hdr.bytes_length]
    exact Nat.add_le_of_le_sub' (by decide) h
  version_eq := rfl
  size_eq := by
    have hsmall : data.length < 256 ^ 4 := lt_of_le_of_lt h (by decide)
    rw [hdrSize_bytes_append, mod_eq_of_lt hsmall, length_append, Hdr.bytes_length]

/-- `struct qmsgq_gh_recv_buf`. `buf` holds the bytes copied, the rest of the array is 0. -/
structure RecvBuf where
  len : ℕ
  hdrReceived : Bool
  buf : List UInt8
deriving DecidableEq

def RecvBuf.reset : RecvBuf := ⟨0, false, []⟩

/-- `qmsgq_transport_process_recv`, with the argument of `qmsgq_transport_post` if it is called. -/
def qmsgqTransportProcessRecv (rx : RecvBuf) (chunk : List UInt8) : RecvBuf × Option (List UInt8) :=
  let n := if rx.buf.length + chunk.length < MAX_PKT_SZ then chunk.length else MAX_PKT_SZ - rx.buf.length
  let buf := rx.buf ++ chunk.take n
  if rx.hdrReceived = false ∧
      (hdrVersion buf ≠ QMSGQ_GH_PROTO_VER_1 ∨ MAX_PKT_SZ - HDR_SIZE < hdrSize buf) then (.reset, none)
  else
    let len := if rx.hdrReceived = false then HDR_SIZE + hdrSize buf else rx.len
    if len < buf.length then (.reset, none)
    else if len = buf.length then (.reset, some (buf.take len))
    else (⟨len, true, buf⟩, none)

structure Call where
  sender : ℕ
  packet : Packet
  offset : ℕ

def Call.count (call : Call) : ℕ :=
  let left := call.packet.bytes.length - call.offset
  if GH_MSGQ_MAX_MSG_SIZE_BYTES < left then GH_MSGQ_MAX_MSG_SIZE_BYTES else left

def Call.chunk (call : Call) : List UInt8 := (call.packet.bytes.drop call.offset).take call.count

/-- The two ends of the queue. Calls that wait for `tx_lock` have done nothing yet. -/
structure Sys where
  txLock : Option Call
  queue : List (List UInt8)
  rxBuf : RecvBuf
  posted : List (List UInt8)
  returned : List (ℕ × Packet × ℤ)

inductive Op where
  | lock (sender : ℕ) (packet : Packet)
  | send (rc : ℤ)
  | unlock
  | recv

def Sys.init : Sys := ⟨none, [], .reset, [], []⟩

def step (s : Sys) : Op → Option Sys
  | .lock sender packet =>
    match s.txLock with
    | none => some { s with txLock := some ⟨sender, packet, 0⟩ }
    | some _ => none
  | .send rc =>
    match s.txLock with
    | none => none
    | some call =>
      if call.offset = call.packet.bytes.length then none
      else if rc = 0 then
        some { s with
          queue := s.queue ++ [call.chunk]
          txLock := some { call with offset := call.offset + call.count } }
      else if rc = -ERESTARTSYS then some s
      else some { s with txLock := none, returned := s.returned ++ [(call.sender, call.packet, rc)] }
  | .unlock =>
    match s.txLock with
    | none => none
    | some call =>
      if call.offset = call.packet.bytes.length then
        some { s with txLock := none, returned := s.returned ++ [(call.sender, call.packet, 0)] }
      else none
  | .recv =>
    match s.queue with
    | [] => none
    | chunk :: queue =>
      let received := qmsgqTransportProcessRecv s.rxBuf chunk
      some { s with queue := queue, rxBuf := received.1, posted := s.posted ++ received.2.toList }

namespace Sys

def sent (s : Sys) : List (List UInt8) :=
  (s.returned.filter fun call => call.2.2 = 0).map fun call => call.2.1.bytes

def finishing (s : Sys) : List (List UInt8) :=
  (s.txLock.toList.filter fun call => call.offset = call.packet.bytes.length).map fun call => call.packet.bytes

/-- A transfer that fails for good is the first one of its packet. -/
def Unbroken (s : Sys) : Op → Prop
  | .send rc => rc = 0 ∨ rc = -ERESTARTSYS ∨ ∀ call ∈ s.txLock, call.offset = 0
  | _ => True

instance (s : Sys) (op : Op) : Decidable (s.Unbroken op) := by
  cases op <;> unfold Sys.Unbroken <;> infer_instance

end Sys

/-! ## One packet -/

section
variable {p : Packet} {call : Call} {n : ℕ}

def RecvBuf.ofGathered : Option (List UInt8 × ℕ) → RecvBuf
  | none => .reset
  | some (part, len) => ⟨len, true, part⟩

theorem hdr_take (hn : HDR_SIZE ≤ n) :
    hdrVersion (p.bytes.take n) = QMSGQ_GH_PROTO_VER_1 ∧ hdrSize (p.bytes.take n) = hdrSize p.bytes := by
  have hhead : (p.bytes.take n).headD 0 = p.bytes.headD 0 := by
    cases hbs : p.bytes with
    | nil => rw [take_nil]
    | cons b bs =>
      obtain ⟨m, rfl⟩ := Nat.exists_eq_add_of_le hn
      rw [Nat.add_comm]
      rfl
  refine ⟨hhead.trans p.version_eq, ?_⟩
  have hmin : min 4 (n - 4) = 4 := by
    rw [HDR_SIZE] at hn
    omega
  rw [hdrSize, hdrSize, drop_take, take_take, hmin]

theorem Packet.zero_ne_length (p : Packet) : 0 ≠ p.bytes.length :=
  Nat.ne_of_lt (Nat.lt_of_lt_of_le (by decide) p.header_le)

theorem Call.count_le (h : call.offset ≤ call.packet.bytes.length) :
    call.offset + call.count ≤ call.packet.bytes.length := by
  unfold count
  dsimp only
  split <;> omega

theorem Call.count_pos (h : call.offset < call.packet.bytes.length) : 0 < call.count := by
  unfold count
  dsimp only
  split
  · decide
  · omega

theorem Call.chunk_length (h : call.offset ≤ call.packet.bytes.length) : call.chunk.length = call.count := by
  have hle := count_le h
  rw [chunk, length_take, length_drop]
  omega

theorem Call.header_le_count (h : call.offset = 0) : HDR_SIZE ≤ call.count := by
  have hheader := call.packet.header_le
  unfold count
  dsimp only
  split
  · decide
  · omega

theorem processRecv_take {rx : RecvBuf} {chunk : List UInt8} (hbuf : rx.buf ++ chunk = p.bytes.take n)
    (hn : n ≤ p.bytes.length) (hhdr : rx.hdrReceived = false → HDR_SIZE ≤ n)
    (hlen : rx.hdrReceived = true → rx.len = p.bytes.length) :
    qmsgqTransportProcessRecv rx chunk =
      if n = p.bytes.length then (.reset, some p.bytes) else (⟨p.bytes.length, true, p.bytes.take n⟩, none) := by
  have hmax := p.length_le
  have hlth : rx.buf.length + chunk.length = n := by
    rw [← length_append, hbuf, length_take, min_eq_left hn]
  have hwh : chunk.take (if rx.buf.length + chunk.length < MAX_PKT_SZ then chunk.length
      else MAX_PKT_SZ - rx.buf.length) = chunk := by
    apply take_of_length_le
    split <;> omega
  have hsize := p.size_eq
  -- the header is there with the first chunk, and it announces the whole packet
  have hacc : ¬(rx.hdrReceived = false ∧ (hdrVersion (p.bytes.take n) ≠ QMSGQ_GH_PROTO_VER_1 ∨
      MAX_PKT_SZ - HDR_SIZE < hdrSize (p.bytes.take n))) := by
    rintro ⟨hnew, hbad⟩
    obtain ⟨hversion, hsame⟩ := hdr_take (hhdr hnew)
    rcases hbad with hbad | hbad
    · exact hbad hversion
    · omega
  have htot : (if rx.hdrReceived = false then HDR_SIZE + hdrSize (p.bytes.take n) else rx.len) =
      p.bytes.length := by
    split
    · next hnew => rw [(hdr_take (hhdr hnew)).2, hsize]
    · next hold => exact hlen (by simpa using hold)
  unfold qmsgqTransportProcessRecv
  simp only [hwh, hbuf, if_neg hacc, htot, length_take, min_eq_left hn, not_lt.mpr hn, if_false]
  by_cases hall : n = p.bytes.length
  · rw [if_pos hall.symm, if_pos hall, hall, take_length, take_length]
  · rw [if_neg (Ne.symm hall), if_neg hall]

def Call.fragment (call : Call) : Fragment Unit UInt8 :=
  ⟨(), call.offset, call.chunk, call.packet.bytes.length - (call.offset + call.count)⟩

theorem RecvBuf.ofGathered_buf (gathered : Option (List UInt8 × ℕ)) :
    (ofGathered gathered).buf = gathered.elim [] Prod.fst := by
  cases gathered <;> rfl

/-- The next chunk of a packet. -/
theorem processRecv_chunk (h : call.offset < call.packet.bytes.length) :
    qmsgqTransportProcessRecv (.ofGathered (progress call.packet.bytes call.offset)) call.chunk =
      (.ofGathered (progress call.packet.bytes (call.offset + call.count)),
        if call.offset + call.count = call.packet.bytes.length then some call.packet.bytes else none) := by
  have hle := Call.count_le (le_of_lt h)
  have hbuf : (RecvBuf.ofGathered (progress call.packet.bytes call.offset)).buf ++ call.chunk =
      call.packet.bytes.take (call.offset + call.count) := by
    rw [RecvBuf.ofGathered_buf]
    exact joined_progress (f := call.fragment) h rfl
  have htot : call.fragment.total = call.packet.bytes.length := by
    simp only [Fragment.total, Call.fragment, Call.chunk_length (le_of_lt h)]
    omega
  have hcon : call.fragment.Continues (progress call.packet.bytes call.offset) :=
    continues_progress h htot
  rw [processRecv_take hbuf hle]
  · by_cases hall : call.offset + call.count = call.packet.bytes.length
    · rw [if_pos hall, if_pos hall, progress, if_pos (.inr hall)]
      rfl
    · have hpos := Call.count_pos h
      rw [if_neg hall, if_neg hall, progress, if_neg (by omega)]
      rfl
  · -- nothing is gathered, so the chunk is the first one
    intro hnew
    cases hgath : progress call.packet.bytes call.offset with
    | none =>
      rw [hgath] at hcon
      exact le_add_left_of_le (Call.header_le_count hcon)
    | some gathered =>
      rw [hgath] at hnew
      cases hnew
  · intro hold
    cases hgath : progress call.packet.bytes call.offset with
    | none =>
      rw [hgath] at hold
      cases hold
    | some gathered =>
      rw [hgath] at hcon
      exact hcon.2.trans htot

end

/-! ## The queue -/

namespace Sys

variable {s s' : Sys} {op : Op} {call : Call}

def receive (receiver : RecvBuf × List (List UInt8)) (chunk : List UInt8) : RecvBuf × List (List UInt8) :=
  let received := qmsgqTransportProcessRecv receiver.1 chunk
  (received.1, receiver.2 ++ received.2.toList)

def drained (s : Sys) : RecvBuf × List (List UInt8) := s.queue.foldl receive (s.rxBuf, s.posted)

def gathered (s : Sys) : Option (List UInt8 × ℕ) :=
  s.txLock.bind fun call => progress call.packet.bytes call.offset

/-- With the chunks in the queue the receiver has every packet that was sent, and a part of the packet
that is being sent. -/
structure Framed (s : Sys) : Prop where
  offset_le : ∀ call ∈ s.txLock, call.offset ≤ call.packet.bytes.length
  drained_eq : s.drained = (.ofGathered s.gathered, s.sent ++ s.finishing)

theorem framed_init : Framed .init where
  offset_le _ h := nomatch h
  drained_eq := rfl

theorem finishing_of_left (hcall : s.txLock = some call) (hleft : call.offset ≠ call.packet.bytes.length) :
    s.finishing = [] := by
  simp [finishing, hcall, hleft]

section
variable (h : Framed s)
include h

theorem Framed.drained_of_free (hfree : s.txLock = none) : s.drained = (.reset, s.sent) := by
  simpa [gathered, finishing, hfree, RecvBuf.ofGathered] using h.drained_eq

theorem Framed.lock (hfree : s.txLock = none) (sender : ℕ) (packet : Packet) :
    Framed { s with txLock := some ⟨sender, packet, 0⟩ } := by
  refine ⟨?_, (h.drained_of_free hfree).trans ?_⟩
  · rintro call ⟨⟩
    exact zero_le _
  · rw [finishing_of_left rfl packet.zero_ne_length, append_nil]
    rfl

section
variable (hcall : s.txLock = some call)
include hcall

theorem Framed.send (hleft : call.offset ≠ call.packet.bytes.length) :
    Framed { s with
      queue := s.queue ++ [call.chunk]
      txLock := some { call with offset := call.offset + call.count } } := by
  have hle := h.offset_le call hcall
  refine ⟨?_, ?_⟩
  · rintro call' ⟨⟩
    exact Call.count_le hle
  · have hdrn := h.drained_eq
    rw [finishing_of_left hcall hleft] at hdrn
    rw [drained, foldl_append]
    change receive s.drained _ = _
    rw [hdrn]
    simp only [receive, gathered, hcall, bind_some,
      processRecv_chunk (lt_of_le_of_ne hle hleft), finishing, toList_some, filter_cons,
      filter_nil]
    by_cases hdone : call.offset + call.count = call.packet.bytes.length
    · simp [hdone, sent]
    · simp [hdone, sent]

theorem Framed.fail (hzero : call.offset = 0) {rc : ℤ} (hrc : rc ≠ 0) :
    Framed { s with txLock := none, returned := s.returned ++ [(call.sender, call.packet, rc)] } := by
  have hleft : call.offset ≠ call.packet.bytes.length := by
    rw [hzero]
    exact call.packet.zero_ne_length
  refine ⟨fun _ hnone => (nomatch hnone), ?_⟩
  have hdrn := h.drained_eq
  rw [finishing_of_left hcall hleft, gathered, hcall, bind_some, hzero] at hdrn
  refine Eq.trans hdrn ?_
  simp [sent, finishing, gathered, hrc]

theorem Framed.unlock (hdone : call.offset = call.packet.bytes.length) :
    Framed { s with txLock := none, returned := s.returned ++ [(call.sender, call.packet, 0)] } := by
  refine ⟨fun _ hnone => (nomatch hnone), ?_⟩
  have hdrn := h.drained_eq
  have hlast : s.finishing = [call.packet.bytes] := by simp [finishing, hcall, hdone]
  rw [hlast, gathered, hcall, bind_some, hdone, progress] at hdrn
  refine Eq.trans hdrn ?_
  simp [sent, finishing, gathered]

end

theorem Framed.step (hok : s.Unbroken op) (hs : step s op = some s') : Framed s' := by
  revert hs
  fun_cases Qmsgq.step s op <;> rintro ⟨⟩
  case case1 sender packet hfree => exact h.lock hfree sender packet
  case case5 call hcall hleft => exact h.send hcall hleft
  case case6 => exact h
  case case7 rc call hcall _ hrc hag =>
    exact h.fail hcall ((hok.resolve_left hrc).resolve_left hag call hcall) hrc
  case case9 call hcall hdone => exact h.unlock hcall hdone
  case case12 chunk queue hqu _ =>
    refine ⟨h.offset_le, Eq.trans ?_ h.drained_eq⟩
    rw [drained, drained, hqu]
    rfl

end

theorem posted_prefix_foldl (queue : List (List UInt8)) (receiver : RecvBuf × List (List UInt8)) :
    receiver.2 <+: (queue.foldl receive receiver).2 := by
  induction queue generalizing receiver with
  | nil => exact prefix_rfl
  | cons chunk queue ih => exact (prefix_append _ _).trans (ih (receive receiver chunk))

theorem run_recv (s : Sys) : ∃ t, run step s (replicate s.queue.length .recv) = some t ∧
    t.queue = [] ∧ t.posted = s.drained.2 := by
  generalize hqu : s.queue = queue
  induction queue generalizing s with
  | nil => exact ⟨s, rfl, hqu, by rw [drained, hqu]; rfl⟩
  | cons chunk queue ih =>
    obtain ⟨t, hrun, hemp, hpost⟩ := ih
      { s with
        queue := queue
        rxBuf := (qmsgqTransportProcessRecv s.rxBuf chunk).1
        posted := s.posted ++ (qmsgqTransportProcessRecv s.rxBuf chunk).2.toList } rfl
    refine ⟨t, ?_, hemp, hpost.trans ?_⟩
    · rw [length_cons, replicate_succ, run]
      simp only [step, hqu]
      exact hrun
    · rw [drained, drained, hqu]
      rfl

/-- In a run in which no packet is given up halfway, what is posted is what was sent, in order; once the
queue is empty, all of it. -/
theorem qmsgq_delivers (ops : List Op) (s : Sys) (hok : Meets Qmsgq.step Unbroken .init ops)
    (h : run Qmsgq.step .init ops = some s) :
    s.posted <+: s.sent ++ s.finishing ∧
      ∃ t, run Qmsgq.step s (List.replicate s.queue.length .recv) = some t ∧ t.queue = [] ∧
        t.posted = s.sent ++ s.finishing := by
  have hfrd : Framed s :=
    run_inv (fun _ _ _ hinv hop hstep => hinv.step hop hstep) framed_init hok h
  obtain ⟨t, hrun, hemp, hpost⟩ := run_recv s
  have hall : s.drained.2 = s.sent ++ s.finishing := by rw [hfrd.drained_eq]
  refine ⟨?_, t, hrun, hemp, hpost.trans hall⟩
  rw [← hall]
  exact posted_prefix_foldl s.queue (s.rxBuf, s.posted)

def longPacket : Packet := .ofData ⟨PKT_TYPE_DGRAM, 0, 0, 1, 0, 2⟩ (replicate 276 7) (by decide +kernel)

def shortPacket : Packet := .ofData ⟨PKT_TYPE_DGRAM, 0, 0, 3, 0, 4⟩ (replicate 8 9) (by decide)

/-- The first chunk of a packet fails, and another sender gets its packet through. -/
theorem qmsgq_delivers_after_first_chunk :
    ∃ s t, run Qmsgq.step .init [.lock 0 shortPacket, .send (-32), .lock 1 longPacket, .send 0,
        .send (-ERESTARTSYS), .recv, .send 0, .unlock] = some s ∧
      run Qmsgq.step s (List.replicate s.queue.length .recv) = some t ∧ t.posted = [longPacket.bytes] := by
  have hrun : (run step .init [.lock 0 shortPacket, .send (-32), .lock 1 longPacket, .send 0,
      .send (-ERESTARTSYS), .recv, .send 0, .unlock]).map (fun s => s.sent ++ s.finishing) =
        some [longPacket.bytes] := by
    decide +kernel
  obtain ⟨s, hs, hsent⟩ := map_eq_some_iff.mp hrun
  obtain ⟨-, t, ht, -, hpost⟩ := qmsgq_delivers _ s (by decide +kernel) hs
  exact ⟨s, t, hs, ht, hpost.trans hsent⟩

/-- The second chunk of a packet fails. The next packet is taken for the rest of the first one and is not
posted. -/
theorem qmsgq_loses_packet :
    (run Qmsgq.step .init [.lock 0 longPacket, .send 0, .send (-32), .lock 1 shortPacket, .send 0, .unlock,
        .recv, .recv]).map (fun s => (s.sent, s.queue, s.posted)) =
      some ([shortPacket.bytes], [], []) := by
  decide +kernel

end Sys

end VendorKernel.Qmsgq
