import Mathlib.Algebra.Order.Ring.Int
import VendorKernel.Lib.LittleEndian

/-! The packets that `qrtr_node_enqueue` hands to a transport, and the size that a transport reads
from the router header in front of them. -/
namespace VendorKernel.Qrtr

open RingBuffer LittleEndian Nat

def QRTR_PROTO_VER_1 : ℕ := 1

def QRTR_PROTO_VER_2 : ℕ := 3

def QRTR_PORT_CTRL : ℕ := 0xfffffffe

def HDR_V1_SIZE : ℕ := 32

def HDR_V2_SIZE : ℕ := 16

structure SockaddrQrtr where
  node : ℕ
  port : ℕ

structure Packet where
  nid : ℕ
  type : ℕ
  src : SockaddrQrtr
  dst : SockaddrQrtr
  confirmRx : Bool
  size : ℕ
  payload : ℕ → UInt8

def align4 (x : ℕ) : ℕ := (x + 3) / 4 * 4

namespace Packet

variable (p : Packet)

def headerWord : ℕ → ℕ
  | 0 => QRTR_PROTO_VER_1
  | 1 => p.type
  | 2 => p.src.node
  | 3 => p.src.port
  | 4 => if p.confirmRx then 1 else 0
  | 5 => p.size
  | 6 => if p.dst.port = QRTR_PORT_CTRL then p.nid else p.dst.node
  | _ => if p.dst.port = QRTR_PORT_CTRL then QRTR_PORT_CTRL else p.dst.port

/-- Byte `i` of the packet: the header, the message, and zeros up to the next word. -/
def byte (i : ℕ) : UInt8 :=
  if i < HDR_V1_SIZE then leByte (p.headerWord (i / 4)) (i % 4)
  else if i - HDR_V1_SIZE < p.size then p.payload (i - HDR_V1_SIZE)
  else 0

def length : ℕ := align4 p.size + HDR_V1_SIZE

def data : List UInt8 := slice p.byte 0 p.length

@[simp] theorem data_length : p.data.length = p.length := slice_length _ _ _

theorem header_le : HDR_V1_SIZE ≤ p.length := le_add_left _ _

theorem data_ne_nil : p.data ≠ [] := by
  rw [← List.length_pos_iff, p.data_length]
  exact lt_of_lt_of_le (by decide) p.header_le

theorem data_split {offset : ℕ} (h : offset ≤ p.length) :
    p.data = slice p.byte 0 offset ++ slice p.byte offset (p.length - offset) := by
  obtain ⟨left, hleft⟩ := Nat.exists_eq_add_of_le h
  rw [data, hleft, slice_add, Nat.zero_add, Nat.add_sub_cancel_left]

theorem unsent_split {offset chunk : ℕ} (h : offset + chunk ≤ p.length) :
    slice p.byte offset (p.length - offset) =
      slice (fun i => p.byte (offset + i)) 0 chunk ++
        slice p.byte (offset + chunk) (p.length - (offset + chunk)) := by
  have hsh : slice (fun i => p.byte (offset + i)) 0 chunk = slice p.byte offset chunk :=
    slice_congr fun j _ => by rw [zero_add]
  rw [show p.length - offset = chunk + (p.length - (offset + chunk)) by omega, slice_add, hsh]

end Packet

/-- `qrtr_peek_pkt_size`, in `unsigned int` until the sum is returned as an `int`. -/
def qrtrPeekPktSize (data : ℕ → UInt8) : ℤ :=
  let ver := (data 0).toNat
  if ver = QRTR_PROTO_VER_1 then
    Int.bmod (align4 (readLE data 20 4) % 2 ^ 32 + HDR_V1_SIZE) (2 ^ 32)
  else if ver = QRTR_PROTO_VER_2 then
    Int.bmod (align4 (readLE data 4 4) % 2 ^ 32 + (HDR_V2_SIZE + (data 3).toNat)) (2 ^ 32)
  else -22

/-- The size field is one for which the length of the packet wraps around to 0. -/
def SizeWraps (hdr : ℕ → UInt8) : Prop :=
  (hdr 0).toNat = QRTR_PROTO_VER_1 ∧ 0xffffffdd ≤ readLE hdr 20 4 ∧ readLE hdr 20 4 ≤ 0xffffffe0 ∨
    (hdr 0).toNat = QRTR_PROTO_VER_2 ∧ 4 ∣ (hdr 3).toNat ∧
      0xffffffed ≤ readLE hdr 4 4 + (hdr 3).toNat ∧ readLE hdr 4 4 + (hdr 3).toNat ≤ 0xfffffff0

theorem sizeWraps_congr {hdr hdr' : ℕ → UInt8} (h : ∀ j < HDR_V1_SIZE, hdr j = hdr' j) :
    SizeWraps hdr ↔ SizeWraps hdr' := by
  have hread : ∀ a, a + 4 ≤ HDR_V1_SIZE → readLE hdr a 4 = readLE hdr' a 4 := by
    intro a ha
    rw [← ofLE_slice, ← ofLE_slice, slice_congr fun j hj => h (a + j) (by omega)]
  rw [SizeWraps, hread 20 (by decide), hread 4 (by decide), h 0 (by decide), h 3 (by decide), SizeWraps]

theorem qrtrPeekPktSize_eq_zero_iff (hdr : ℕ → UInt8) : qrtrPeekPktSize hdr = 0 ↔ SizeWraps hdr := by
  have hsize := readLE_lt hdr 20 4
  have hsize' := readLE_lt hdr 4 4
  have hopt := (hdr 3).toNat_lt
  have hv : QRTR_PROTO_VER_1 ≠ QRTR_PROTO_VER_2 := by decide
  rw [qrtrPeekPktSize, SizeWraps, HDR_V1_SIZE, HDR_V2_SIZE]
  split_ifs with h1 h2
  · rw [← Int.dvd_iff_bmod_eq_zero, align4]
    omega
  · rw [← Int.dvd_iff_bmod_eq_zero, align4]
    omega
  · simp [h1, h2]

theorem qrtrPeekPktSize_packet {p : Packet} {hdr : ℕ → UInt8} (hsize : p.size ≤ 2 ^ 16)
    (hhdr : ∀ j < 24, hdr j = p.byte j) : qrtrPeekPktSize hdr = p.length := by
  have hver : (hdr 0).toNat = QRTR_PROTO_VER_1 := by
    rw [hhdr 0 (by decide)]
    change (leByte QRTR_PROTO_VER_1 0).toNat = _
    decide
  have hword : readLE hdr 20 4 = p.size := by
    rw [readLE_of_leByte, mod_eq_of_lt (lt_of_le_of_lt hsize (by decide))]
    intro j hj
    rw [hhdr _ (by omega), Packet.byte, if_pos (by simp only [HDR_V1_SIZE]; omega),
      show (20 + j) / 4 = 5 by omega, show (20 + j) % 4 = j by omega]
    rfl
  have hali : align4 p.size ≤ 2 ^ 16 := by
    rw [align4]
    omega
  rw [qrtrPeekPktSize, hword, Packet.length, HDR_V1_SIZE]
  rw [Int.bmod_eq_of_le (by omega) (by omega)]
  omega

end VendorKernel.Qrtr
