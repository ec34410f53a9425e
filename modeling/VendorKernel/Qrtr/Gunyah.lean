import VendorKernel.Lib.Framing
import VendorKernel.Lib.Machine
import VendorKernel.Qrtr.Packet
import VendorKernel.Qrtr.Pipe

/-! The gunyah transport: `qrtr_gunyah_send` publishes a packet in chunks, `qrtr_gunyah_read` puts them
together again. They are interleaved at every access to the shared head and tail; a chunk may be visible in
memory before it is published. -/
namespace VendorKernel.Qrtr

open Machine RingBuffer

def MAX_PKT_SZ : ℕ := 0x10000 + 32

/-- In front of the next reading of the space, or with a chunk to write; `offset` bytes are published. -/
inductive GunyahSender where
  | idle
  | sending (p : Packet) (offset : ℕ)
  | writing (p : Packet) (offset chunk : ℕ)

/-- In front of the test of the loop, of the look at the header, or of taking a new packet or a fragment. -/
inductive GunyahReader where
  | idle
  | loop
  | readNew
  | sized (pktLen : ℤ)
  | readFrag
deriving DecidableEq

structure GunyahSys where
  pipe : Pipe
  sender : GunyahSender
  reader : GunyahReader
  ring : Ring
  posted : List (List UInt8)
  /-- Not in the source: the packets whose last chunk has been published. -/
  sent : List Packet

inductive GunyahOp where
  | send (p : Packet)
  | txAvail
  | copy (count : ℕ)
  | txWrite
  /-- The wait has timed out, or `skb_to_sgvec` has failed. -/
  | fail
  | doorbell
  | reader

/-- What `read_new` and `read_frag` do with `count` bytes: behind the `offset` bytes collected. -/
def GunyahSys.take (s : GunyahSys) (offset count : ℕ) : GunyahSys :=
  { s with
    ring := { s.ring with buf := gunyahRxPeak s.pipe s.ring.buf offset 0 count }
    pipe := gunyahRxAdvance s.pipe count }

def GunyahSys.post (s : GunyahSys) (len : ℕ) : GunyahSys :=
  { s with posted := s.posted ++ [slice s.ring.buf 0 len] }

/-- The first part of `qrtr_gunyah_read_new`; the eight words of `hdr` are all overwritten. -/
def GunyahSys.peekHeader (s : GunyahSys) : ℤ :=
  qrtrPeekPktSize (gunyahRxPeak s.pipe (fun _ => 0) 0 0 HDR_V1_SIZE)

def qrtrGunyahReadNew (s : GunyahSys) (pktLen : ℤ) : GunyahSys :=
  let rxAvail := gunyahRxAvail s.pipe
  if pktLen < 0 ∨ (MAX_PKT_SZ : ℤ) < pktLen then
    -- corrupted packet, discard existing data
    { s with pipe := gunyahRxAdvance s.pipe rxAvail }
  else
    let rxAvail := if pktLen.toNat < rxAvail then pktLen.toNat else rxAvail
    let s := s.take 0 rxAvail
    if rxAvail = pktLen.toNat then s.post pktLen.toNat
    else { s with ring := { s.ring with len := pktLen.toNat, offset := rxAvail } }

def qrtrGunyahReadFrag (s : GunyahSys) : GunyahSys :=
  let rxAvail := gunyahRxAvail s.pipe
  let rxAvail := if s.ring.len < rxAvail + s.ring.offset then s.ring.len - s.ring.offset else rxAvail
  let offset := s.ring.offset
  let s := s.take offset rxAvail
  if rxAvail + offset = s.ring.len then
    let s := s.post s.ring.len
    { s with ring := { s.ring with offset := 0, len := 0 } }
  else { s with ring := { s.ring with offset := offset + rxAvail } }

def qrtrGunyahRead (s : GunyahSys) : Option GunyahSys :=
  match s.reader with
  | .idle => none
  | .loop =>
    if gunyahRxAvail s.pipe = 0 then some { s with reader := .idle }
    else if s.ring.offset ≠ 0 then some { s with reader := .readFrag }
    else some { s with reader := .readNew }
  | .readNew => some { s with reader := .sized s.peekHeader }
  | .sized pktLen => some { qrtrGunyahReadNew s pktLen with reader := .loop }
  | .readFrag => some { qrtrGunyahReadFrag s with reader := .loop }

def gunyahStep (s : GunyahSys) : GunyahOp → Option GunyahSys
  | .send p =>
    match s.sender with
    | .idle => some { s with sender := .sending p 0 }
    | _ => none
  | .txAvail =>
    match s.sender with
    | .sending p offset =>
      let txAvail := gunyahTxAvail s.pipe
      let left := p.length - offset
      if txAvail = 0 then some s
      else some { s with sender := .writing p offset (if txAvail < left then txAvail else left) }
    | _ => none
  | .copy count =>
    match s.sender with
    | .writing p offset chunk =>
      if count ≤ chunk ∧ s.pipe.head ≤ FIFO_SIZE then
        some { s with pipe := s.pipe.copyIn (fun i => p.byte (offset + i)) count }
      else none
    | _ => none
  | .txWrite =>
    match s.sender with
    | .writing p offset chunk =>
      let pipe := gunyahTxWrite s.pipe (fun i => p.byte (offset + i)) chunk
      if offset + chunk < p.length then
        some { s with pipe := pipe, sender := .sending p (offset + chunk) }
      else some { s with pipe := pipe, sender := .idle, sent := s.sent ++ [p] }
    | _ => none
  | .fail =>
    match s.sender with
    | .sending _ _ => some { s with sender := .idle }
    | _ => none
  | .doorbell =>
    match s.reader with
    | .idle => some { s with reader := .loop }
    | _ => none
  | .reader => qrtrGunyahRead s

def GunyahSys.init (fifo : ℕ → UInt8) : GunyahSys :=
  ⟨⟨0, 0, fifo⟩, .idle, .idle, ⟨fun _ => 0, 0, 0⟩, [], []⟩

end VendorKernel.Qrtr
