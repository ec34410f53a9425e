import VendorKernel.Lib.Framing
import VendorKernel.Lib.Machine
import VendorKernel.Qrtr.Packet
import VendorKernel.Qrtr.Pipe

/-! The genpool transport: `qrtr_genpool_send` writes a length header and the packet in chunks,
`qrtr_genpool_read` puts the chunks together. -/
namespace VendorKernel.Qrtr.Genpool

open LittleEndian Machine RingBuffer

def MAX_PKT_SZ : ℕ := 0x10000

def HDR_KEY_VALUE : ℕ := 0xdead

def HDR_SIZE : ℕ := 4

/-- The header of a packet: two little-endian 16-bit fields, the length and a key. -/
def headerByte (p : Packet) (i : ℕ) : UInt8 :=
  if i < 2 then leByte p.length i else leByte HDR_KEY_VALUE (i - 2)

/-- Waiting for room for the header, with the header or a chunk to write, or in front of reading the space. -/
inductive Sender where
  | idle
  | header (p : Packet)
  | writingHeader (p : Packet)
  | sending (p : Packet) (offset : ℕ)
  | writing (p : Packet) (offset chunk : ℕ)

/-- Where a call of `qrtr_genpool_read` is; `sized` is behind the header, which is no longer in
the FIFO. -/
inductive Reader where
  | idle
  | loop
  | readNew
  | sized (pktLen : ℕ)
  | readFrag
deriving DecidableEq

structure Sys where
  pipe : Pipe
  sender : Sender
  reader : Reader
  ring : Ring
  posted : List (List UInt8)
  /-- Not in the source: the packets whose last chunk has been published. -/
  sent : List Packet

inductive Op where
  | send (p : Packet)
  | txAvail
  | copy (count : ℕ)
  | txWrite
  | xferIrq
  | reader

/-- What `read_new` and `read_frag` do with `count` bytes: behind the `offset` bytes collected. -/
def Sys.take (s : Sys) (offset count : ℕ) : Sys :=
  { s with
    ring := { s.ring with buf := qrtrGenpoolRxPeak s.pipe s.ring.buf offset 0 count }
    pipe := qrtrGenpoolRxAdvance s.pipe count }

def Sys.post (s : Sys) (len : ℕ) : Sys :=
  { s with posted := s.posted ++ [slice s.ring.buf 0 len] }

def Sys.peekHeader (s : Sys) : ℕ :=
  readLE (qrtrGenpoolRxPeak s.pipe (fun _ => 0) 0 0 HDR_SIZE) 0 2

def qrtrGenpoolReadNew (s : Sys) (pktLen : ℕ) : Sys :=
  let rxAvail := qrtrGenpoolRxAvail s.pipe
  let rxAvail := if pktLen < rxAvail then pktLen else rxAvail
  let s := s.take 0 rxAvail
  if rxAvail = pktLen then s.post pktLen
  else { s with ring := { s.ring with len := pktLen, offset := rxAvail } }

def qrtrGenpoolReadFrag (s : Sys) : Sys :=
  let rxAvail := qrtrGenpoolRxAvail s.pipe
  let rxAvail := if s.ring.len < rxAvail + s.ring.offset then s.ring.len - s.ring.offset else rxAvail
  let offset := s.ring.offset
  let s := s.take offset rxAvail
  if rxAvail + offset = s.ring.len then
    let s := s.post s.ring.len
    { s with ring := { s.ring with offset := 0, len := 0 } }
  else { s with ring := { s.ring with offset := offset + rxAvail } }

def qrtrGenpoolRead (s : Sys) : Option Sys :=
  match s.reader with
  | .idle => none
  | .loop =>
    if qrtrGenpoolRxAvail s.pipe = 0 then some { s with reader := .idle }
    else if s.ring.offset ≠ 0 then some { s with reader := .readFrag }
    else some { s with reader := .readNew }
  | .readNew =>
    if MAX_PKT_SZ < s.peekHeader then some { s with reader := .loop }
    else
      some
        { s with pipe := qrtrGenpoolRxAdvance s.pipe HDR_SIZE, reader := .sized s.peekHeader }
  | .sized pktLen => some { qrtrGenpoolReadNew s pktLen with reader := .loop }
  | .readFrag => some { qrtrGenpoolReadFrag s with reader := .loop }

def genpoolStep (s : Sys) : Op → Option Sys
  | .send p =>
    match s.sender with
    | .idle => some { s with sender := .header p }
    | _ => none
  | .txAvail =>
    match s.sender with
    | .header p =>
      if qrtrGenpoolTxAvail s.pipe < HDR_SIZE then some s
      else some { s with sender := .writingHeader p }
    | .sending p offset =>
      let txAvail := qrtrGenpoolTxAvail s.pipe
      let left := p.length - offset
      if txAvail = 0 then some s
      else some { s with sender := .writing p offset (if txAvail < left then txAvail else left) }
    | _ => none
  | .copy count =>
    match s.sender with
    | .writingHeader p =>
      if count ≤ HDR_SIZE then some { s with pipe := s.pipe.copyIn (headerByte p) count }
      else none
    | .writing p offset chunk =>
      if count ≤ chunk then
        some { s with pipe := s.pipe.copyIn (fun i => p.byte (offset + i)) count }
      else none
    | _ => none
  | .txWrite =>
    match s.sender with
    | .writingHeader p =>
      some
        { s with pipe := qrtrGenpoolTxWrite s.pipe (headerByte p) HDR_SIZE, sender := .sending p 0 }
    | .writing p offset chunk =>
      let pipe := qrtrGenpoolTxWrite s.pipe (fun i => p.byte (offset + i)) chunk
      if offset + chunk < p.length then
        some { s with pipe := pipe, sender := .sending p (offset + chunk) }
      else some { s with pipe := pipe, sender := .idle, sent := s.sent ++ [p] }
    | _ => none
  | .xferIrq =>
    match s.reader with
    | .idle => some { s with reader := .loop }
    | _ => none
  | .reader => qrtrGenpoolRead s

def Sys.init (fifo : ℕ → UInt8) : Sys :=
  ⟨⟨0, 0, fifo⟩, .idle, .idle, ⟨fun _ => 0, 0, 0⟩, [], []⟩

end VendorKernel.Qrtr.Genpool
