import VendorKernel.Lib.RingQueue

/-! The shared-memory FIFO of the gunyah and genpool transports: one side owns the head, the other
the tail, and the bytes between them are a queue. -/
namespace VendorKernel.Qrtr

open RingBuffer Nat List

def FIFO_SIZE : ℕ := 0x4000

def FIFO_FULL_RESERVE : ℕ := 8

structure Pipe where
  head : ℕ
  tail : ℕ
  fifo : ℕ → UInt8

namespace Pipe

def rxAvail (pipe : Pipe) : ℕ :=
  let len := if pipe.head < pipe.tail then FIFO_SIZE - pipe.tail + pipe.head else pipe.head - pipe.tail
  if FIFO_SIZE < len then 0 else len

def txAvail (pipe : Pipe) : ℕ :=
  let avail := if pipe.tail ≤ pipe.head then FIFO_SIZE - pipe.head + pipe.tail else pipe.tail - pipe.head
  if avail < FIFO_FULL_RESERVE then 0 else avail - FIFO_FULL_RESERVE

def copyIn (pipe : Pipe) (data : ℕ → UInt8) (count : ℕ) : Pipe :=
  { pipe with fifo := wrapWrite FIFO_SIZE pipe.fifo pipe.head data count }

def advanceHead (pipe : Pipe) (wrap : ℕ → ℕ) (count : ℕ) : Pipe :=
  let head := pipe.head + count
  { pipe with head := if FIFO_SIZE ≤ head then wrap head else head }

def rxAdvance (pipe : Pipe) (count : ℕ) : Pipe :=
  let tail := pipe.tail + count
  { pipe with tail := if FIFO_SIZE ≤ tail then tail % FIFO_SIZE else tail }

theorem rxAdvance_tail (pipe : Pipe) (n : ℕ) : (pipe.rxAdvance n).tail = (pipe.tail + n) % FIFO_SIZE := by
  change (if FIFO_SIZE ≤ pipe.tail + n then (pipe.tail + n) % FIFO_SIZE else pipe.tail + n) = _
  split_ifs with hover
  · rfl
  · rw [mod_eq_of_lt (by omega)]

end Pipe

def gunyahRxAvail (pipe : Pipe) : ℕ := pipe.rxAvail

/-- Copies to `data + at`, `offset` being 0 in all calls. -/
def gunyahRxPeak (pipe : Pipe) (data : ℕ → UInt8) (dst offset count : ℕ) : ℕ → UInt8 :=
  let tail := pipe.tail + offset
  let tail := if FIFO_SIZE ≤ tail then tail - FIFO_SIZE else tail
  if FIFO_SIZE < tail then data else wrapRead FIFO_SIZE pipe.fifo tail data dst count

def gunyahRxAdvance (pipe : Pipe) (count : ℕ) : Pipe := pipe.rxAdvance count

def gunyahTxAvail (pipe : Pipe) : ℕ := if FIFO_SIZE < pipe.head then 0 else pipe.txAvail

/-- Also `gunyah_sg_write`, with the bytes of the scatter list from `offset` on as data. -/
def gunyahTxWrite (pipe : Pipe) (data : ℕ → UInt8) (count : ℕ) : Pipe :=
  if FIFO_SIZE < pipe.head then pipe
  else (pipe.copyIn data count).advanceHead (· - FIFO_SIZE) count

def qrtrGenpoolRxAvail (pipe : Pipe) : ℕ := pipe.rxAvail

def qrtrGenpoolRxPeak (pipe : Pipe) (data : ℕ → UInt8) (dst offset count : ℕ) : ℕ → UInt8 :=
  let tail := pipe.tail + offset
  let tail := if FIFO_SIZE ≤ tail then tail % FIFO_SIZE else tail
  wrapRead FIFO_SIZE pipe.fifo tail data dst count

def qrtrGenpoolRxAdvance (pipe : Pipe) (count : ℕ) : Pipe := pipe.rxAdvance count

def qrtrGenpoolTxAvail (pipe : Pipe) : ℕ := pipe.txAvail

def qrtrGenpoolTxWrite (pipe : Pipe) (data : ℕ → UInt8) (count : ℕ) : Pipe :=
  (pipe.copyIn data count).advanceHead (· % FIFO_SIZE) count

/-- `struct gunyah_ring` and `struct qrtr_genpool_ring`: a packet of length `len` of which `offset`
bytes are in the buffer. -/
structure Ring where
  buf : ℕ → UInt8
  len : ℕ
  offset : ℕ

def Ring.received (ring : Ring) : List UInt8 := slice ring.buf 0 ring.offset

theorem Ring.received_ne_nil_iff {ring : Ring} : ring.received ≠ [] ↔ ring.offset ≠ 0 := by
  rw [← length_pos_iff, received, slice_length, Nat.pos_iff_ne_zero]

structure Carries (pipe : Pipe) (q : List UInt8) : Prop where
  tail_lt : pipe.tail < FIFO_SIZE
  head_eq : pipe.head = (pipe.tail + q.length) % FIFO_SIZE
  room : q.length + FIFO_FULL_RESERVE ≤ FIFO_SIZE
  data : window FIFO_SIZE pipe.fifo pipe.tail q.length = q

theorem gunyahRxPeak_eq {pipe : Pipe} (htail : pipe.tail < FIFO_SIZE) (data : ℕ → UInt8) (dst count : ℕ) :
    gunyahRxPeak pipe data dst 0 count = wrapRead FIFO_SIZE pipe.fifo pipe.tail data dst count := by
  have hcell : (if FIFO_SIZE ≤ pipe.tail then pipe.tail - FIFO_SIZE else pipe.tail) = pipe.tail :=
    if_neg (by omega)
  rw [gunyahRxPeak, add_zero, hcell, if_neg (by omega)]

namespace Carries

variable {pipe : Pipe} {q : List UInt8} {n count : ℕ}

theorem of_holds (h : Holds FIFO_SIZE pipe.fifo pipe.head pipe.tail q)
    (hroom : q.length + FIFO_FULL_RESERVE ≤ FIFO_SIZE) : Carries pipe q :=
  { h with room := hroom }

section
variable (h : Carries pipe q)
include h

variable (data : ℕ → UInt8)

theorem holds : Holds FIFO_SIZE pipe.fifo pipe.head pipe.tail q :=
  { h with room := lt_of_lt_of_le (Nat.lt_add_of_pos_right (by decide)) h.room }

theorem rxAvail_eq : pipe.rxAvail = q.length := by
  have hroom := h.room
  rw [Pipe.rxAvail, h.holds.occupied]
  exact if_neg (by omega)

theorem txAvail_eq : pipe.txAvail + q.length + FIFO_FULL_RESERVE = FIFO_SIZE := by
  have hroom := h.room
  simp only [Pipe.txAvail, h.holds.free]
  split_ifs <;> omega

section
variable (hn : n ≤ pipe.txAvail)
include hn

theorem copyIn : Carries (pipe.copyIn data n) q := by
  have htx := h.txAvail_eq
  have hhead : pipe.head = (pipe.head + 0) % FIFO_SIZE := (mod_eq_of_lt h.holds.head_lt).symm
  exact of_holds (h.holds.copy data hhead (by omega)) h.room

theorem write {wrap : ℕ → ℕ} (hwrap : ∀ x, FIFO_SIZE ≤ x → x < 2 * FIFO_SIZE → wrap x = x % FIFO_SIZE) :
    Carries ((pipe.copyIn data n).advanceHead wrap n) (q ++ slice data 0 n) := by
  have htx := h.txAvail_eq
  have hlt := h.holds.head_lt
  have hhead : ((pipe.copyIn data n).advanceHead wrap n).head = (pipe.head + n) % FIFO_SIZE := by
    change (if FIFO_SIZE ≤ pipe.head + n then wrap (pipe.head + n) else pipe.head + n) = _
    by_cases hover : FIFO_SIZE ≤ pipe.head + n
    · rw [if_pos hover, hwrap _ hover (by omega)]
    · rw [if_neg hover, mod_eq_of_lt (by omega)]
  have hreserve : 0 < FIFO_FULL_RESERVE := by decide
  have hpublish := (h.copyIn data hn).holds.publish (n := n) (by omega)
  have hself : window FIFO_SIZE (pipe.copyIn data n).fifo pipe.head n = slice data 0 n :=
    window_wrapWrite_self _ _ rfl hlt.le (by omega)
  refine of_holds (hhead ▸ hself ▸ hpublish) ?_
  rw [length_append, slice_length]
  omega

theorem gunyahTxWrite : Carries (gunyahTxWrite pipe data n) (q ++ slice data 0 n) := by
  rw [Qrtr.gunyahTxWrite, if_neg (by have := h.holds.head_lt; omega)]
  apply h.write data hn
  intro x hx hlt
  rw [mod_eq_sub_mod hx, mod_eq_of_lt (by omega)]

theorem qrtrGenpoolTxWrite : Carries (qrtrGenpoolTxWrite pipe data n) (q ++ slice data 0 n) :=
  h.write data hn fun _ _ _ => rfl

end

theorem gunyahTxAvail_eq : gunyahTxAvail pipe = pipe.txAvail := by
  rw [gunyahTxAvail, if_neg (by have := h.holds.head_lt; omega)]

theorem rxAdvance (hn : n ≤ q.length) : Carries (pipe.rxAdvance n) (q.drop n) := by
  have hroom := h.room
  refine of_holds (pipe.rxAdvance_tail n ▸ h.holds.advance hn) ?_
  rw [length_drop]
  omega

theorem txAvail_le (hn : n ≤ q.length) : pipe.txAvail ≤ (pipe.rxAdvance n).txAvail := by
  have htx := h.txAvail_eq
  have htx' := (h.rxAdvance hn).txAvail_eq
  rw [length_drop] at htx'
  omega

variable (data : ℕ → UInt8)

theorem qrtrGenpoolRxPeak_eq (dst count : ℕ) :
    qrtrGenpoolRxPeak pipe data dst 0 count = wrapRead FIFO_SIZE pipe.fifo pipe.tail data dst count := by
  have htail := h.tail_lt
  rw [qrtrGenpoolRxPeak, add_zero, if_neg (by omega)]

theorem slice_peek (dst : ℕ) (hn : n ≤ q.length) :
    slice (wrapRead FIFO_SIZE pipe.fifo pipe.tail data dst n) 0 (dst + n) = slice data 0 dst ++ q.take n := by
  have hroom := h.room
  rw [slice_wrapRead _ _ h.tail_lt.le (by omega), (h.holds.split hn).1]

theorem slice_peek_past (hn : n ≤ q.length) (hcnt : n ≤ count) (hmax : count ≤ FIFO_SIZE) :
    slice (wrapRead FIFO_SIZE pipe.fifo pipe.tail data 0 count) 0 n = q.take n := by
  rw [← (h.holds.split hn).1]
  apply slice_congr
  intro j hj
  rw [wrapRead_apply _ _ h.tail_lt.le hmax (by omega)]

end

end Carries

theorem ite_lt_add_eq_min (len avail off : ℕ) :
    (if len < avail + off then len - off else avail) = min (len - off) avail := by
  split_ifs <;> omega

end VendorKernel.Qrtr
